import TypedClient.CommandLine.Basic
import TypedClient.Text.Basic

/-! Reading arguments. A command stands on a level; each level knows switches and settings, and all
levels know how output is coloured, where what is said last counts. A setting has its value after an
equals sign, behind its letter, or in the next argument, unless that begins with a dash. Nothing is
said twice on a level. The first thing that is wrong decides, and help that is asked for before. -/

namespace TypedClient.CommandLine

/-- What is on or off. -/
inductive Switch where
  | help | version | noModels | noClient | noFormat | noIndex | noClean | verbose | quiet
  deriving DecidableEq, Repr

/-- What has a value. -/
inductive Setting where
  | color | theme | config | input | basePath | extension | modelTemplate | clientTemplate
  | responseType
  deriving DecidableEq, Repr

def Switch.letter? : Switch → Option Char
  | .help => some 'h' | .version => some 'V' | .verbose => some 'v' | .quiet => some 'q'
  | _ => none

def Switch.name : Switch → String
  | .help => "help" | .version => "version" | .noModels => "no-models" | .noClient => "no-api"
  | .noFormat => "no-format" | .noIndex => "no-index" | .noClean => "no-clean"
  | .verbose => "verbose" | .quiet => "quiet"

def Setting.letter? : Setting → Option Char
  | .config => some 'c' | .input => some 'i' | .basePath => some 'o'
  | _ => none

def Setting.name : Setting → String
  | .color => "color" | .theme => "theme" | .config => "config" | .input => "input"
  | .basePath => "base-path" | .extension => "extension" | .modelTemplate => "model-template"
  | .clientTemplate => "api-template" | .responseType => "response-type"

/-- Whether a setting can have a value. -/
def Setting.takes : Setting → String → Bool
  | .color, v => (Terminal.ColorMode.ofName? v).isSome
  | .theme, v => (Terminal.ThemeMode.ofName? v).isSome
  | .config, v | .basePath, v | .modelTemplate, v | .clientTemplate, v => v ≠ ""
  | .responseType, v => (ResponseType.ofName? v).isSome
  | .input, _ | .extension, _ => true

/-- Where arguments stand. -/
inductive Level where
  | top | list | listActions | generate
  deriving DecidableEq, Repr

def Level.switches : Level → List Switch
  | .top => [.help, .version]
  | .list | .listActions => [.help]
  | .generate => [.help, .noModels, .noClient, .noFormat, .noIndex, .noClean, .verbose, .quiet]

def Level.settings : Level → List Setting
  | .top | .list => [.color, .theme]
  | .listActions => [.color, .theme, .input]
  | .generate => [.color, .theme, .config, .input, .basePath, .extension, .modelTemplate,
      .clientTemplate, .responseType]

/-- The levels below one, by name. -/
def Level.below : Level → List (String × Level)
  | .top => [("list", .list), ("generate", .generate)]
  | .list => [("actions", .listActions)]
  | .listActions | .generate => []

/-- Why reading ends before a command is read. -/
inductive Stop where
  | help | version | misuse
  deriving DecidableEq, Repr

/-- What has been said on a level. -/
structure Said where
  switches : List Switch := []
  settings : List (Setting × String) := []
  deriving DecidableEq, Repr, Inhabited

namespace Said

def value? (s : Said) (a : Setting) : Option String :=
  (s.settings.find? fun p => p.1 = a).map Prod.snd

def has (s : Said) (a : Switch) : Bool := s.switches.contains a

def addSwitch (s : Said) (a : Switch) : Except Stop Said :=
  match a with
  | .help => .error .help
  | .version => .error .version
  | a => if s.has a then .error .misuse else .ok { s with switches := s.switches ++ [a] }

def addSetting (s : Said) (a : Setting) (value : String) : Except Stop Said :=
  if (s.value? a).isSome || !a.takes value then .error .misuse
  else .ok { s with settings := s.settings ++ [(a, value)] }

end Said

/-! ### One argument -/

/-- What an argument adds, and the setting whose value is still to come. -/
abbrev Step := Except Stop (Said × Option Setting)

/-- An argument of letters behind a dash. -/
def readLetters (level : Level) (s : Said) : List Char → Step
  | [] => .ok (s, none)
  | c :: cs =>
    match level.switches.find? fun a => a.letter? = some c with
    | some a => do readLetters level (← s.addSwitch a) cs
    | none =>
      match level.settings.find? fun a => a.letter? = some c with
      | none => .error .misuse
      | some a =>
        match cs with
        | [] => .ok (s, some a)
        | '=' :: value | value => do pure (← s.addSetting a (String.ofList value), none)

/-- An argument that is a name behind two dashes. -/
def readName (level : Level) (s : Said) (cs : List Char) : Step :=
  let name := String.ofList (cs.takeWhile (· != '='))
  let value := match cs.dropWhile (· != '=') with
    | [] => none
    | _ :: value => some (String.ofList value)
  match level.switches.find? fun a => a.name = name, value with
  | some a, none => do pure (← s.addSwitch a, none)
  | some _, some _ => .error .misuse
  | none, value =>
    match level.settings.find? fun a => a.name = name, value with
    | none, _ => .error .misuse
    | some a, none => .ok (s, some a)
    | some a, some value => do pure (← s.addSetting a value, none)

/-- Whether an argument is read as more than a word. -/
def isOption (a : String) : Bool :=
  match a.toList with
  | '-' :: _ :: _ => true
  | _ => false

def readOption (level : Level) (s : Said) (a : String) : Step :=
  match a.toList with
  | '-' :: '-' :: cs => readName level s cs
  | '-' :: cs => readLetters level s cs
  | _ => .error .misuse

/-! ### All arguments -/

/-- Reads arguments up to the first word. Two dashes alone may only come last. -/
def readLevel (level : Level) (s : Said) : List String → Except Stop (Said × List String)
  | [] => .ok (s, [])
  | a :: rest =>
    if a = "--" then
      if rest.isEmpty then .ok (s, []) else .error .misuse
    else if !isOption a then .ok (s, a :: rest)
    else
      match readOption level s a with
      | .error stop => .error stop
      | .ok (s, none) => readLevel level s rest
      | .ok (s, some setting) =>
        match rest with
        | [] => .error .misuse
        | value :: rest =>
          if isOption value then .error .misuse
          else match s.addSetting setting value with
            | .error stop => .error stop
            | .ok s => readLevel level s rest

/-- Whether the words after a word that asks for help name a level, or that word itself. -/
def namesLevel : Level → List String → Bool
  | _, [] => true
  | level, word :: rest =>
    match Assoc.get? level.below word with
    | some below => namesLevel below rest
    | none => word = "help" && !level.below.isEmpty && rest.isEmpty

/-- What is said from the top down to the level that is reached. -/
def readLevels : Nat → Level → List String → Except Stop (List Said × Level)
  | 0, _, _ => .error .misuse
  | depth + 1, level, args =>
    match readLevel level {} args with
    | .error stop => .error stop
    | .ok (said, []) => if level.below.isEmpty then .ok ([said], level) else .error .misuse
    | .ok (said, word :: rest) =>
      match Assoc.get? level.below word with
      | some below => (readLevels depth below rest).map fun (all, last) => (said :: all, last)
      | none =>
        .error (if word = "help" && !level.below.isEmpty && namesLevel level rest then .help
          else .misuse)

/-! ### Commands -/

def commandOf (level : Level) (s : Said) : Option Command :=
  match level with
  | .top | .list => none
  | .listActions => (s.value? .input).map .listActions
  | .generate => do
    let origin ← match s.value? .config, s.value? .input, s.value? .basePath with
      | some path, none, none => some (Origin.configuration path)
      | none, some input, some basePath => some (.document input basePath)
      | _, _, _ => none
    if s.has .verbose && s.has .quiet then none
    else some (.generate {
      origin
      noModels := s.has .noModels
      noClient := s.has .noClient
      noFormat := s.has .noFormat
      noIndex := s.has .noIndex
      noClean := s.has .noClean
      extension := s.value? .extension
      modelTemplate := s.value? .modelTemplate
      clientTemplate := s.value? .clientTemplate
      responseType := (s.value? .responseType).bind ResponseType.ofName?
      verbose := s.has .verbose
      quiet := s.has .quiet })

/-- What the deepest level that says it says about a setting. -/
def lastValue? (all : List Said) (a : Setting) : Option String :=
  (all.filterMap fun s => s.value? a).getLast?

/-- What arguments ask for. There are three levels at most. -/
def read (args : List String) : Invocation :=
  match readLevels 3 .top args with
  | .error .help => .help
  | .error .version => .version
  | .error .misuse => .misuse
  | .ok (all, level) =>
    match commandOf level (all.getLast?.getD {}) with
    | none => .misuse
    | some command =>
      .run (((lastValue? all .color).bind Terminal.ColorMode.ofName?).getD .auto)
        (((lastValue? all .theme).bind Terminal.ThemeMode.ofName?).getD .auto) command

end TypedClient.CommandLine
