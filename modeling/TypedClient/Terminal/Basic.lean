import TypedClient.Text.Columns

/-! What is written on a terminal: lines of output and of errors, the time of day, and text in the
colours of a theme. Without colours a text still stands between the marks that set the usual
colour. In a table a column is as wide as its widest cell and a blank on each side; lines stand
above and below the table, and one runs through under its head. -/

namespace TypedClient

/-- Where a line goes. -/
inductive Channel where
  | output | errors
  deriving DecidableEq, Repr

class Console (m : Type → Type) where
  /-- Writes a line, without its line feed. -/
  print : Channel → String → m Unit
  /-- The time of day, as it is written. -/
  clock : m String

namespace Terminal

inductive ColorMode where
  | always | auto | never
  deriving DecidableEq, Repr, Inhabited

def ColorMode.name : ColorMode → String
  | .always => "always" | .auto => "auto" | .never => "never"

def ColorMode.ofName? (s : String) : Option ColorMode :=
  [ColorMode.always, .auto, .never].find? fun c => c.name == s

inductive ThemeMode where
  | dark | light | auto
  deriving DecidableEq, Repr, Inhabited

def ThemeMode.name : ThemeMode → String
  | .dark => "dark" | .light => "light" | .auto => "auto"

def ThemeMode.ofName? (s : String) : Option ThemeMode :=
  [ThemeMode.dark, .light, .auto].find? fun t => t.name == s

/-- A background. -/
inductive Theme where
  | dark | light
  deriving DecidableEq, Repr, Inhabited

/-- What a text stands for. -/
inductive Role where
  | timestamp | primary | accent | info | success | label | value
  deriving DecidableEq, Repr

/-- Red, green and blue. -/
structure Color where
  red : Nat
  green : Nat
  blue : Nat
  deriving DecidableEq, Repr

def Role.color : Role → Theme → Color
  | .timestamp, .dark => ⟨108, 122, 137⟩
  | .timestamp, .light => ⟨96, 104, 112⟩
  | .primary, .dark => ⟨49, 120, 198⟩
  | .primary, .light => ⟨28, 78, 140⟩
  | .accent, .dark => ⟨229, 112, 87⟩
  | .accent, .light => ⟨186, 62, 44⟩
  | .info, .dark => ⟨133, 193, 233⟩
  | .info, .light => ⟨36, 113, 163⟩
  | .success, .dark => ⟨88, 214, 141⟩
  | .success, .light => ⟨25, 135, 84⟩
  | .label, .dark => ⟨93, 173, 226⟩
  | .label, .light => ⟨21, 67, 96⟩
  | .value, .dark => ⟨244, 208, 63⟩
  | .value, .light => ⟨154, 125, 10⟩

/-- What the environment says about colours. -/
structure Environment where
  noColor : Option String := none
  colorFgBg : Option String := none
  deriving DecidableEq, Repr, Inhabited

structure Palette where
  theme : Theme := .dark
  colored : Bool := false
  /-- Whether marks say which colour they set. -/
  marked : Bool := true
  deriving DecidableEq, Repr, Inhabited

/-- The number of a colour below 256, as it is written in the environment. -/
def colorNumber? (s : String) : Option Nat :=
  let digits := match s.toList with
    | '+' :: cs => cs
    | cs => cs
  (Text.digitsValue? digits).filter (· < 256)

/-- The theme for a terminal that says which colours it has; the background comes last. Seven and
whatever comes from fifteen on is light. -/
def themeOf (mode : ThemeMode) (env : Environment) : Theme :=
  match mode with
  | .dark => .dark
  | .light => .light
  | .auto =>
    let background := env.colorFgBg.bind fun s =>
      ((Text.split (· == ';') s).getLast?).bind colorNumber?
    match background with
    | some n => if n = 7 || 15 ≤ n then .light else .dark
    | none => .dark

/-- The palette of output that does not go to a terminal: colours have to be asked for. -/
def palette (color : ColorMode) (theme : ThemeMode) (env : Environment) : Palette :=
  { theme := themeOf theme env
    colored := color = .always
    marked := (env.noColor.getD "").isEmpty }

namespace Palette

/-- The mark that sets a colour, or the usual one. -/
def mark (p : Palette) (color : Option Color) : String :=
  let code := match p.marked, color with
    | false, _ => ""
    | true, none => "39"
    | true, some c =>
      String.intercalate ";" ["38", "2", toString c.red, toString c.green, toString c.blue]
  "\x1b[" ++ code ++ "m"

/-- A text in the colour of its role. -/
def paint (p : Palette) (role : Role) (text : String) : String :=
  p.mark (if p.colored then some (role.color p.theme) else none) ++ text ++ p.mark none

end Palette

/-- Two digits at least. -/
def twoDigits (n : Nat) : String := (if n < 10 then "0" else "") ++ toString n

/-- A time of day. -/
def clockText (hours minutes seconds : Nat) : String :=
  String.intercalate ":" [twoDigits hours, twoDigits minutes, twoDigits seconds]

/-! ### Tables -/

structure Cell where
  text : String
  /-- Whether the text stands at the right. -/
  right : Bool := false
  deriving DecidableEq, Repr, Inhabited

structure Table where
  head : List String
  rows : List (List Cell)
  deriving Repr, Inhabited

namespace Table

def blanks (n : Nat) : String := String.ofList (List.replicate n ' ')

def rule (n : Nat) : String := String.ofList (List.replicate n '─')

/-- The lines of a cell. -/
def linesOf (c : Cell) : List String := Text.split (· == '\n') c.text

/-- The columns that a cell takes without its blanks. -/
def cellWidth (c : Cell) : Nat := ((linesOf c).map Text.columns).foldl Nat.max 0

/-- The head and the rows. -/
def cells (t : Table) : List (List Cell) :=
  t.head.map (fun text => { text }) :: t.rows

/-- The width of each column without its blanks. -/
def widths (t : Table) : List Nat :=
  (List.range t.head.length).map fun i =>
    (t.cells.map fun row => (row[i]?.map cellWidth).getD 0).foldl Nat.max 0

/-- One line of a cell. -/
def fill (width : Nat) (right : Bool) (line : String) : String :=
  let space := blanks (width - Text.columns line)
  " " ++ (if right then space ++ line else line ++ space) ++ " "

/-- The lines of a row. -/
def rowLines (widths : List Nat) (row : List Cell) : List String :=
  let height := (row.map fun c => (linesOf c).length).foldl Nat.max 0
  (List.range height).map fun i =>
    String.intercalate " " ((widths.zip row).map fun (w, c) =>
      fill w c.right ((linesOf c)[i]?.getD ""))

/-- The line above and below a table. -/
def edge (widths : List Nat) : String :=
  String.intercalate " " (widths.map fun w => rule (w + 2))

/-- The line under the head. -/
def headRule (widths : List Nat) : String := rule (Text.columns (edge widths))

def lines (t : Table) : List String :=
  let widths := t.widths
  match t.cells with
  | [] => []
  | head :: rows =>
    [edge widths] ++ rowLines widths head ++ [headRule widths] ++
      rows.flatMap (rowLines widths) ++ [edge widths]

end Table

end Terminal

end TypedClient
