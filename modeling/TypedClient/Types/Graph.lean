import TypedClient.Schema.Node

/-! The graph of types. Types refer to each other by their position; equal positions mean the same
type. A type as it is written in generated code is spelled out by following those references, and so
are the models that it needs. -/

namespace TypedClient

/-- The position of a type in its graph. -/
abbrev TypeId := Nat

/-- A property of a type, without its name. -/
structure Property where
  type : TypeId
  nullable : Bool := false
  required : Bool := false
  description : Option String := none
  deriving DecidableEq, Repr, Inhabited

/-- A type as schemas describe it. Built-in types have no model of their own; a generic type is
either the definition of a family or one of its instances. -/
structure TypeInfo where
  name : String
  fullName : String
  scope : String := ""
  isBuiltin : Bool := false
  isArray : Bool := false
  element : Option TypeId := none
  isEnum : Bool := false
  members : List EnumMember := []
  properties : Assoc String Property := []
  base : Option TypeId := none
  isInterface : Option Bool := none
  isGeneric : Bool := false
  isGenericDefinition : Bool := false
  isGenericParameter : Bool := false
  genericDefinition : Option TypeId := none
  genericArguments : List TypeId := []
  description : Option String := none
  /-- Whether the type is looked up by its name alone. -/
  isIntrinsic : Bool := false
  deriving DecidableEq, Repr, Inhabited

namespace TypeInfo

def named (name : String) : TypeInfo := { name, fullName := name }

def builtin (name : String) : TypeInfo := { named name with isBuiltin := true }

/-- The key of the file that holds a type: its name within its scope. -/
def fileKey (t : TypeInfo) : String :=
  if t.scope = "" then t.name else t.scope ++ "." ++ t.name

/-- Whether a type has a model: neither a built-in type nor a parameter, and of a generic family
only the definition. -/
def isModel (t : TypeInfo) : Bool :=
  !t.isBuiltin && !t.isGenericParameter && (!t.isGeneric || t.isGenericDefinition)

/-- The types that a type refers to. -/
def references (t : TypeInfo) : List TypeId :=
  t.element.toList ++ t.base.toList ++ t.genericDefinition.toList ++ t.genericArguments ++
    t.properties.map fun p => p.2.type

end TypeInfo

/-- All types of one document, oldest first, and those that are looked up by name. -/
structure TypeGraph where
  types : Array TypeInfo
  intrinsics : Assoc String TypeId
  deriving Inhabited

namespace TypeGraph

def anyName : String := "any"

def stringName : String := "string"

def formDataName : String := "FormData"

def recordName : String := "Record"

/-- The type that stands for every type; it is the first one of a graph. -/
def any : TypeId := 0

/-- The graph with nothing but `any`. -/
def initial : TypeGraph :=
  ⟨#[{ TypeInfo.builtin anyName with isIntrinsic := true }], [(anyName, any)]⟩

def size (g : TypeGraph) : Nat := g.types.size

def get? (g : TypeGraph) (id : TypeId) : Option TypeInfo := g.types[id]?

/-- The type under `id`; a built-in one without a name when there is none. -/
def get (g : TypeGraph) (id : TypeId) : TypeInfo := (g.get? id).getD (TypeInfo.builtin "")

/-- Adds a type at the end. -/
def insert (g : TypeGraph) (t : TypeInfo) : TypeId × TypeGraph :=
  (g.size, { g with types := g.types.push t })

def set (g : TypeGraph) (id : TypeId) (t : TypeInfo) : TypeGraph :=
  { g with types := g.types.setIfInBounds id t }

/-- The built-in type of that name, the same one every time. -/
def intrinsic (g : TypeGraph) (name : String) : TypeId × TypeGraph :=
  match Assoc.get? g.intrinsics name with
  | some id => (id, g)
  | none =>
    let (id, g) := g.insert { TypeInfo.builtin name with isIntrinsic := true }
    (id, { g with intrinsics := Assoc.put g.intrinsics name id })

/-! ### Spelling -/

/-- A type as it is written in code, spelled out to a depth of `fuel` references. -/
def spellWithin (g : TypeGraph) : Nat → TypeId → String
  | 0, _ => anyName
  | fuel + 1, id =>
    let t := g.get id
    if t.isArray then
      (match t.element with
        | some element => spellWithin g fuel element
        | none => anyName) ++ "[]"
    else if t.isGeneric && !t.genericArguments.isEmpty then
      t.name ++ "<" ++ String.intercalate "," (t.genericArguments.map (spellWithin g fuel)) ++ ">"
    else t.name

/-- A type as it is written in code: `Pet[]`, `Record<string,number>`, `Page<Pet>`. No chain of
references is longer than the graph. -/
def spell (g : TypeGraph) (id : TypeId) : String := spellWithin g g.size id

/-! ### Dependencies -/

/-- Adds the models that a reference of `owner` to `target` needs to those found, which are kept by
full name: those of the arguments and of the element, then the target itself. -/
def collectWithin (g : TypeGraph) (owner : TypeInfo) :
    Nat → Assoc String TypeId → TypeId → Assoc String TypeId
  | 0, found, _ => found
  | fuel + 1, found, target =>
    let t := g.get target
    let found := t.genericArguments.foldl (collectWithin g owner fuel) found
    let found := match t.isArray, t.element with
      | true, some element => collectWithin g owner fuel found element
      | _, _ => found
    if t.fullName = owner.fullName || t.isBuiltin || t.isGenericParameter then found
    else if Assoc.has found t.fullName then found
    else Assoc.put found t.fullName target

/-- The references of a type that count for its dependencies, in order. -/
def dependencyRoots (g : TypeGraph) (t : TypeInfo) : List TypeId :=
  t.base.toList ++ t.genericDefinition.toList ++
    (if t.isArray then t.element.toList.filter fun e => !(g.get e).isBuiltin else []) ++
    (t.properties.map fun p => p.2.type) ++
    (if t.isGeneric && !t.isGenericDefinition then t.genericArguments else [])

/-- The models that a type needs, one for each full name. -/
def dependencies (g : TypeGraph) (id : TypeId) : List TypeId :=
  let t := g.get id
  Assoc.values ((g.dependencyRoots t).foldl (g.collectWithin t g.size) [])

end TypeGraph

end TypedClient
