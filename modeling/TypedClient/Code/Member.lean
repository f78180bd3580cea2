import TypedClient.Client.Action
import TypedClient.Naming

/-! Members of declared types: their keys, their types, and lists of them as an object type. A key
that is no identifier is written as a string in single quotes, with a backslash before every quote
and backslash. -/

namespace TypedClient.Code

/-! ### Keys and types -/

def escapeKey : List Char → List Char
  | [] => []
  | c :: cs => if c = '\\' || c = '\x27' then '\\' :: c :: escapeKey cs else c :: escapeKey cs

/-- A member's name as it is written in code. -/
def memberKey (name : String) : String :=
  if Naming.isIdentifier name then name
  else String.ofList ('\x27' :: (escapeKey name.toList ++ ['\x27']))

/-- Alternatives of a type as one type; `any` when there are none. -/
def typeUnion (types : List String) : String :=
  if types.isEmpty then "any" else String.intercalate " | " types

/-! ### Comments -/

/-- A text on one line: its lines without blanks around them, empty ones left out. -/
def singleLine (s : String) : String :=
  String.intercalate " " (((Text.lines s).map Text.trim).filter (· != ""))

/-- A text that is there and not empty. -/
def described (description : Option String) : Option String := description.filter (· != "")

/-! ### Object types -/

structure Member where
  name : String
  description : Option String := none
  required : Bool
  types : List String
  value : Option String := none
  deriving DecidableEq, Repr

namespace Member

/-- A property of a model, with its value or without. -/
def ofProperty (withValue : Bool) (p : ModelProperty) : Member :=
  { name := p.name, description := p.description, required := p.required, types := p.types
    value := if withValue then some p.value else none }

def ofParameter (p : ActionParameter) : Member :=
  { name := p.name, description := p.description, required := p.required, types := p.types }

/-- One member, after its description on a line of its own. -/
def text (m : Member) : String :=
  (match described m.description with
    | some d => "/** " ++ singleLine d ++ " */\n"
    | none => "") ++
  memberKey m.name ++ (if m.required then "" else "?") ++ ": " ++ typeUnion m.types ++
  (match m.value with
    | some v => " = " ++ v
    | none => "")

end Member

/-- An object type; `any` when it has no members. -/
def objectType (members : List Member) : String :=
  if members.isEmpty then "any"
  else "\x7b\n" ++ String.intercalate ";\n" (members.map Member.text) ++ ";\n\x7d"

end TypedClient.Code
