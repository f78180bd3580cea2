import TypedClient.Client.MediaType

/-! The grammar of media types, `type/subtype+suffix; name=value`. -/

namespace TypedClient.MediaType

/-! ### Characters -/

def isNameChar (c : Char) : Bool := c.isAlphanum || "!#$&-^_.+%*\x27".toList.contains c

/-- Whether a text is a name: at most 127 of its characters, a letter, digit or star first. -/
def isName (cs : List Char) : Bool :=
  match cs with
  | [] => false
  | c :: _ => (c.isAlphanum || c = '*') && cs.length ≤ 127 && cs.all isNameChar

def isGap (c : Char) : Bool := c = ' ' || c = '\t'

/-! ### Parameters -/

/-- What follows a quoted value, from its first character on. It stays on one line, but for a line
break after a backslash. -/
def afterQuoted : List Char → Option (List Char)
  | [] => none
  | '"' :: cs => some cs
  | '\n' :: _ => none
  | '\\' :: _ :: cs => afterQuoted cs
  | _ :: cs => afterQuoted cs

/-- What follows a parameter `name=value`. A value without quotes may be empty. -/
def afterParameter (cs : List Char) : Option (List Char) :=
  if isName (cs.takeWhile isNameChar) then
    match cs.dropWhile isNameChar with
    | '=' :: '"' :: rest => afterQuoted rest
    | '=' :: rest => some (rest.dropWhile isNameChar)
    | _ => none
  else none

/-- Whether a text is a list of parameters, each after a semicolon; the last may be missing. It is
looked at `fuel` times at most, which the length of the text never exceeds. -/
def areParameters : Nat → List Char → Bool
  | 0, _ => false
  | fuel + 1, cs =>
    match cs.dropWhile isGap with
    | [] => true
    | ';' :: rest =>
      match rest.dropWhile isGap with
      | [] => true
      | cs =>
        match afterParameter cs with
        | some rest => areParameters fuel rest
        | none => false
    | _ => false

/-! ### Types -/

/-- Cuts at the last plus. -/
def splitSuffix (cs : List Char) : List Char × Option (List Char) :=
  if cs.contains '+' then
    (((cs.reverse.dropWhile (· != '+')).drop 1).reverse,
      some (cs.reverse.takeWhile (· != '+')).reverse)
  else (cs, none)

/-- Whether a suffix is in order: a character of names and a name after it, so two characters at
least. -/
def isSuffix : List Char → Bool
  | [] => false
  | c :: cs => isNameChar c && isName cs

def isEssenceChar (c : Char) : Bool := !isGap c && c != ';'

/-- A media type as it is written, with its parameters, which are looked at and left out. -/
def ofText? (s : String) : Option MediaType :=
  let cs := s.toList
  let type := cs.takeWhile (· != '/')
  match cs.dropWhile (· != '/') with
  | [] => none
  | _ :: rest =>
    let (subtype, suffix) := splitSuffix (rest.takeWhile isEssenceChar)
    if isName type && isName subtype && suffix.all isSuffix &&
        areParameters (rest.length + 1) (rest.dropWhile isEssenceChar) then
      some { type, subtype, suffix }
    else none

instance : Reading := ⟨ofText?⟩

end TypedClient.MediaType
