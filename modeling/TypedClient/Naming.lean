import TypedClient.Text.Ascii

/-! Identifiers of the generated code. A text becomes PascalCase word by word: words are the runs of
ASCII letters and digits left after transliteration, and a word with both capitals and small letters
keeps them all but for its first. -/

namespace TypedClient.Naming

/-! ### Words -/

section Words

variable [Text.Transliteration]

def words (cs : List Char) : List (List Char) :=
  (Text.pieces (!·.isAlphanum) (Text.toAscii cs)).filter (!·.isEmpty)

/-- The first character as a capital. -/
def capitalize : List Char → List Char
  | [] => []
  | c :: cs => c.toUpper :: cs

def isMixed (word : List Char) : Bool := word.any Char.isLower && word.any Char.isUpper

/-- A word in its PascalCase form: `petId` becomes `PetId`, `GET` and `get` become `Get`. -/
def pascalWord (word : List Char) : List Char :=
  capitalize (if isMixed word then word else word.map Char.toLower)

def pascalChars (cs : List Char) : List Char := (words cs).flatMap pascalWord

def pascalCase (s : String) : String := String.ofList (pascalChars s.toList)

end Words

/-! ### Identifiers -/

def isStart (c : Char) : Bool := c.isAlpha || c = '_' || c = '$'

def isPart (c : Char) : Bool := c.isAlphanum || c = '_' || c = '$'

/-- Whether a member can have this name without quotes. -/
def isIdentifier (s : String) : Bool :=
  match s.toList with
  | [] => false
  | c :: cs => isStart c && cs.all isPart

end TypedClient.Naming
