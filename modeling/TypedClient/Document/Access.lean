import TypedClient.Json.Shape

/-! The methods of an operation, and its access rules: which resource it touches and which of the
four ways of access it limits. Every field of a rule has a value of its own when it is left out. -/

namespace TypedClient

inductive HttpMethod where
  | get | put | post | delete | options | head | patch | trace
  deriving DecidableEq, Repr, Inhabited

namespace HttpMethod

def all : List HttpMethod := [.get, .put, .post, .delete, .options, .head, .patch, .trace]

/-- The name in capitals. -/
def name : HttpMethod → String
  | .get => "GET" | .put => "PUT" | .post => "POST" | .delete => "DELETE"
  | .options => "OPTIONS" | .head => "HEAD" | .patch => "PATCH" | .trace => "TRACE"

/-- The name in small letters. -/
def lowerName (m : HttpMethod) : String := Text.lower m.name

/-- Reads a method in any mixture of capitals and small letters. -/
def ofName? (s : String) : Option HttpMethod := all.find? fun m => Text.sameLetters m.name s

end HttpMethod

/-! ### Access -/

/-- A set of ways of access, one bit each. -/
structure AccessMask where
  bits : UInt8 := 0
  deriving DecidableEq, Repr, Inhabited

namespace AccessMask

def none : AccessMask := ⟨0⟩

def read : AccessMask := ⟨1⟩

def write : AccessMask := ⟨2⟩

def delete : AccessMask := ⟨4⟩

def invoke : AccessMask := ⟨8⟩

def all : AccessMask := ⟨15⟩

/-- Whether every way of `other` is among those of `mask`. -/
def contains (mask other : AccessMask) : Bool := mask.bits &&& other.bits == other.bits

def ofJson (v : Json) : Except Json.Mismatch AccessMask :=
  (Json.readInteger 0 255 "u8" v).map fun n => ⟨UInt8.ofNat n.toNat⟩

def toJson (mask : AccessMask) : Json := .num (.int mask.bits.toNat)

end AccessMask

structure LimitedResource where
  id : String := ""
  type : Option String := Option.none
  displayName : Option String := Option.none
  description : Option String := Option.none
  operations : AccessMask := {}
  logEnabled : Bool := false
  deriving DecidableEq, Repr, Inhabited

namespace LimitedResource

def fields : List String :=
  ["id", "type", "displayName", "description", "operations", "logEnabled"]

/-- Sets a field by its name; other names are passed over. -/
def set (r : LimitedResource) (field : String) (v : Json) :
    Except Json.Mismatch LimitedResource := do
  if field = "id" then pure { r with id := ← Json.readText v }
  else if field = "type" then pure { r with type := ← Json.readOptionalText v }
  else if field = "displayName" then pure { r with displayName := ← Json.readOptionalText v }
  else if field = "description" then pure { r with description := ← Json.readOptionalText v }
  else if field = "operations" then pure { r with operations := ← AccessMask.ofJson v }
  else if field = "logEnabled" then pure { r with logEnabled := ← Json.readFlag v }
  else pure r

def ofJson (v : Json) : Except Json.Mismatch LimitedResource :=
  Json.readRecord "LimitedResource" fields true set {} v

def toJson (r : LimitedResource) : Json :=
  .obj ([("id", .str r.id)] ++ Json.optional "type" r.type ++
    Json.optional "displayName" r.displayName ++ Json.optional "description" r.description ++
    [("operations", r.operations.toJson), ("logEnabled", .bool r.logEnabled)])

end LimitedResource

end TypedClient
