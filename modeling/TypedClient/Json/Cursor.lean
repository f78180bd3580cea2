/-! Reading places in JSON text, and what can be wrong there. Lines count from one, columns are
bytes since the last line feed. A fault also has a path: the way from the outermost value to the one
that could not be read. -/

namespace TypedClient.Json

structure Place where
  line : Nat
  column : Nat
  deriving DecidableEq, Repr, Inhabited

namespace Place

def text (p : Place) : String :=
  " at line " ++ toString p.line ++ " column " ++ toString p.column

/-- The place after the first `n` bytes of `cs`; none when there are fewer. A character can be cut
in its middle. -/
def afterBytes (p : Place) : Nat → List Char → Option Place
  | 0, _ => some p
  | _ + 1, [] => none
  | n + 1, c :: cs =>
    if c = '\n' then afterBytes ⟨p.line + 1, 0⟩ n cs
    else if c.utf8Size ≤ n + 1 then
      afterBytes ⟨p.line, p.column + c.utf8Size⟩ (n + 1 - c.utf8Size) cs
    else some ⟨p.line, p.column + n + 1⟩
termination_by _ cs => cs.length

end Place

/-- The text that is left, and where it begins. -/
structure Cursor where
  rest : List Char
  place : Place
  deriving DecidableEq, Repr, Inhabited

namespace Cursor

def start (text : String) : Cursor := ⟨text.toList, ⟨1, 0⟩⟩

/-- Past one character. -/
def advance (c : Cursor) : Cursor :=
  match c.rest with
  | [] => c
  | ch :: rest =>
    ⟨rest, if ch = '\n' then ⟨c.place.line + 1, 0⟩
      else ⟨c.place.line, c.place.column + ch.utf8Size⟩⟩

def skip : Nat → Cursor → Cursor
  | 0, c => c
  | n + 1, c => skip n c.advance

def peek (c : Cursor) : Option Char := c.rest.head?

/-- The place one byte on, or the end. -/
def nextByte (c : Cursor) : Place := (c.place.afterBytes 1 c.rest).getD c.place

/-- The place after all of the text. -/
def last (c : Cursor) : Place := (skip c.rest.length c).place

def isSpace (ch : Char) : Bool := ch = ' ' || ch = '\n' || ch = '\t' || ch = '\r'

/-- Past white space. -/
def skipSpace (c : Cursor) : Cursor := skip (c.rest.takeWhile isSpace).length c

/-- Past decimal digits. -/
def skipDigits (c : Cursor) : Cursor := skip (c.rest.takeWhile Char.isDigit).length c

end Cursor

/-- What is wrong with a text as JSON. -/
inductive Fault where
  | endInValue | endInList | endInObject | endInString
  | expectedValue | expectedWord | expectedColon
  | expectedListEnd | expectedObjectEnd
  | keyNotString | trailingComma | trailingCharacters
  | invalidNumber | outOfRange
  | invalidEscape | unpairedEscape | loneSurrogate | controlCharacter
  | tooDeep
  deriving DecidableEq, Repr

def Fault.message : Fault → String
  | .endInValue => "EOF while parsing a value"
  | .endInList => "EOF while parsing a list"
  | .endInObject => "EOF while parsing an object"
  | .endInString => "EOF while parsing a string"
  | .expectedValue => "expected value"
  | .expectedWord => "expected ident"
  | .expectedColon => "expected `:`"
  | .expectedListEnd => "expected `,` or `]`"
  | .expectedObjectEnd => "expected `,` or `\x7d`"
  | .keyNotString => "key must be a string"
  | .trailingComma => "trailing comma"
  | .trailingCharacters => "trailing characters"
  | .invalidNumber => "invalid number"
  | .outOfRange => "number out of range"
  | .invalidEscape => "invalid escape"
  | .unpairedEscape => "unexpected end of hex escape"
  | .loneSurrogate => "lone leading surrogate in hex escape"
  | .controlCharacter => "control character (\\u0000-\\u001F) found while parsing a string"
  | .tooDeep => "recursion limit exceeded"

/-! ### Paths -/

/-- One step from a value to a value inside it. -/
inductive PathStep where
  | index (i : Nat)
  | key (name : String)
  /-- To a member whose name was not read. -/
  | unknown
  deriving DecidableEq, Repr

/-- A step as it is written; the first one of a path has no dot before it. -/
def PathStep.text (first : Bool) : PathStep → String
  | .index i => "[" ++ toString i ++ "]"
  | .key name => (if first then "" else ".") ++ name
  | .unknown => if first then "?" else ".?"

/-- A path as it is written; a dot is the path of the outermost value. -/
def pathText : List PathStep → String
  | [] => "."
  | s :: rest => s.text true ++ String.join (rest.map (PathStep.text false))

/-! ### Errors -/

/-- A fault, where reading stood when it showed, and the path of the value that was being read. -/
structure ReadError where
  fault : Fault
  place : Place
  path : List PathStep := []
  deriving DecidableEq, Repr

def ReadError.message (e : ReadError) : String := e.fault.message ++ e.place.text

/-- Reading of a value that is one step inside another. -/
def inside {α : Type} (step : PathStep) : Except ReadError α → Except ReadError α
  | .ok a => .ok a
  | .error e => .error { e with path := step :: e.path }

/-- A fault at the place where the cursor stands. -/
def Cursor.fail {α : Type} (c : Cursor) (f : Fault) : Except ReadError α :=
  .error { fault := f, place := c.place }

/-- A fault of the byte under the cursor, which counts as read. -/
def Cursor.failHere {α : Type} (c : Cursor) (f : Fault) : Except ReadError α :=
  .error { fault := f, place := c.nextByte }

end TypedClient.Json
