import TypedClient.Json.Printer
import TypedClient.Json.Cursor
import TypedClient.Text.Quoted

/-! Reading records out of JSON values, and how a value can fail to have the expected shape. A
record may be written as an object or as a list of its fields in order; unknown members of an
object are passed over, and the first member that does not fit is the one reported. -/

namespace TypedClient.Json

/-! ### Descriptions -/

/-- What a value is, in the words of an error message. -/
def describe : Json → String
  | .null => "null"
  | .bool b => "boolean `" ++ (if b then "true" else "false") ++ "`"
  | .num (.int n) => "integer `" ++ toString n ++ "`"
  | .num (.real x) => "floating point `" ++ (Number.real x).text ++ "`"
  | .str s => "string " ++ Text.quote s
  | .arr _ => "sequence"
  | .obj _ => "map"

/-! ### Mismatches -/

/-- How a value misses the shape that is wanted. -/
inductive Mismatch where
  | wrongType (found : String) (expected : String)
  | wrongValue (found : String) (expected : String)
  | wrongLength (length : Nat) (expected : String)
  | missing (field : String)
  | duplicate (field : String)
  | noVariant (of : String)
  deriving DecidableEq, Repr

def Mismatch.message : Mismatch → String
  | .wrongType found expected => "invalid type: " ++ found ++ ", expected " ++ expected
  | .wrongValue found expected => "invalid value: " ++ found ++ ", expected " ++ expected
  | .wrongLength n expected => "invalid length " ++ toString n ++ ", expected " ++ expected
  | .missing field => "missing field `" ++ field ++ "`"
  | .duplicate field => "duplicate field `" ++ field ++ "`"
  | .noVariant name => "data did not match any variant of untagged enum " ++ name

/-- The mismatch of a value of another type. -/
def Mismatch.of (v : Json) (expected : String) : Mismatch := .wrongType v.describe expected

/-- What a record of `n` fields is called when a list for it is too short. -/
def recordOf (name : String) (n : Nat) : String :=
  "struct " ++ name ++ " with " ++ toString n ++ (if n = 1 then " element" else " elements")

/-! ### Reading values -/

def readText (v : Json) : Except Mismatch String :=
  match v with
  | .str s => .ok s
  | v => .error (.of v "a string")

def readFlag (v : Json) : Except Mismatch Bool :=
  match v with
  | .bool b => .ok b
  | v => .error (.of v "a boolean")

/-- Null stands for nothing. -/
def readOptionalText (v : Json) : Except Mismatch (Option String) :=
  match v with
  | .null => .ok none
  | v => (readText v).map some

/-- An integer between the two bounds. -/
def readInteger (least greatest : Int) (expected : String) (v : Json) : Except Mismatch Int :=
  match v with
  | .num (.int n) =>
    if least ≤ n && n ≤ greatest then .ok n else .error (.wrongValue v.describe expected)
  | v => .error (.of v expected)

/-- Fills a record from an object, member by member, or from a list of its fields in order. `set`
takes a field by its name and passes over other names; a list may be short when the fields are
`optional`. -/
def readRecord {α : Type} (name : String) (fields : List String) (optional : Bool)
    (set : α → String → Json → Except Mismatch α) (empty : α) (v : Json) : Except Mismatch α :=
  match v with
  | .obj members => members.foldlM (fun r m => set r m.1 m.2) empty
  | .arr items => do
    let r ← (fields.zip items).foldlM (fun r m => set r m.1 m.2) empty
    if !optional && items.length < fields.length then
      throw (.wrongLength items.length (recordOf name fields.length))
    if fields.length < items.length then
      throw (.wrongLength items.length "fewer elements in array")
    pure r
  | v => .error (.of v ("struct " ++ name))

/-- A field that has to be there. -/
def require {α : Type} (field : String) : Option α → Except Mismatch α
  | some a => .ok a
  | none => .error (.missing field)

end TypedClient.Json
