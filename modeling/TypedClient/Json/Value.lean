import TypedClient.Assoc
import TypedClient.Json.Binary64

/-! JSON values. An object keeps its members in order, and a number is either an integer of 64
bits, kept exactly, or a binary64 number: `1.0` is not the integer `1`, and `-0` is not `0`. -/

namespace TypedClient

inductive Number where
  | int (n : Int)
  | real (x : Binary64)
  deriving DecidableEq, Repr, Inhabited

inductive Json where
  | null
  | bool (b : Bool)
  | num (n : Number)
  | str (s : String)
  | arr (items : List Json)
  | obj (fields : List (String × Json))
  deriving Repr, Inhabited

namespace Json

/-! ### Looking inside -/

def asObject? : Json → Option (Assoc String Json)
  | .obj fields => some fields
  | _ => none

def asArray? : Json → Option (List Json)
  | .arr items => some items
  | _ => none

def asString? : Json → Option String
  | .str s => some s
  | _ => none

def asBool? : Json → Option Bool
  | .bool b => some b
  | _ => none

def isNull : Json → Bool
  | .null => true
  | _ => false

/-- The member of an object under `key`; other values have none. -/
def get? (v : Json) (key : String) : Option Json :=
  v.asObject?.bind (Assoc.get? · key)

def getString? (v : Json) (key : String) : Option String := (v.get? key).bind asString?

def getBool? (v : Json) (key : String) : Option Bool := (v.get? key).bind asBool?

def getArray? (v : Json) (key : String) : Option (List Json) := (v.get? key).bind asArray?

def getObject? (v : Json) (key : String) : Option (Assoc String Json) :=
  (v.get? key).bind asObject?

/-! ### Making values -/

/-- A member of an object that is there only when it has a value. -/
def optional (key : String) (text : Option String) : List (String × Json) :=
  text.toList.map fun t => (key, .str t)

def ofTexts (ts : List String) : Json := .arr (ts.map .str)

/-! ### Size -/

mutual

/-- The number of values and members in a value. -/
def size : Json → Nat
  | .arr items => 1 + sizes items
  | .obj fields => 1 + fieldSizes fields
  | _ => 1

def sizes : List Json → Nat
  | [] => 0
  | v :: vs => 1 + size v + sizes vs

def fieldSizes : List (String × Json) → Nat
  | [] => 0
  | (_, v) :: fs => 1 + size v + fieldSizes fs

end

theorem size_lt_of_get? {fields : Assoc String Json} {key : String} {v : Json}
    (h : Assoc.get? fields key = some v) : size v < fieldSizes fields := by
  induction fields with
  | nil => simp at h
  | cons p fields ih =>
    obtain ⟨k, w⟩ := p
    rw [Assoc.get?] at h
    split at h
    · cases h; simp [fieldSizes]; omega
    · have := ih h; simp [fieldSizes]; omega

/-! ### One value for each name -/

mutual

/-- Leaves one member for each name of an object: the first one's place with the last one's
value. -/
def unique : Json → Json
  | .arr items => .arr (uniqueAll items)
  | .obj fields => .obj (Assoc.ofPairs (uniqueFields fields))
  | v => v

def uniqueAll : List Json → List Json
  | [] => []
  | v :: vs => unique v :: uniqueAll vs

def uniqueFields : List (String × Json) → List (String × Json)
  | [] => []
  | (k, v) :: fs => (k, unique v) :: uniqueFields fs

end

end Json

end TypedClient
