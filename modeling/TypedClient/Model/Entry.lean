import TypedClient.Json.Value

/-! Models as templates see them: a declaration with its properties, what it imports, and what it
extends. Models with the same key share a file. -/

namespace TypedClient

/-- What a model is declared as. -/
inductive Definition where
  | «class» | interface | type | enum
  deriving DecidableEq, Repr, Inhabited

namespace Definition

def all : List Definition := [.class, .interface, .type, .enum]

def name : Definition → String
  | .class => "class" | .interface => "interface" | .type => "type" | .enum => "enum"

def ofName? (s : String) : Option Definition := all.find? fun d => d.name == s

end Definition

/-- A name imported from the file of another model. -/
structure Dependency where
  /-- The key of the file. -/
  id : String
  /-- The name that it exports. -/
  modules : String
  deriving DecidableEq, Repr, Inhabited

structure ModelProperty where
  name : String
  /-- The alternatives of its type. -/
  types : List String := []
  /-- The value it has in a new object of a class, or the value of an enum member. -/
  value : String := ""
  description : Option String := none
  required : Bool := false
  deriving DecidableEq, Repr, Inhabited

structure ModelEntry where
  definition : Definition := .interface
  /-- The declared type with its parameters. -/
  name : String
  exportName : String
  key : String
  description : Option String := none
  properties : List ModelProperty := []
  dependencies : List Dependency := []
  «extends» : Option String := none
  deriving DecidableEq, Repr, Inhabited

/-! ### As JSON -/

def Dependency.toJson (d : Dependency) : Json :=
  .obj [("id", .str d.id), ("modules", .str d.modules)]

def ModelProperty.toJson (p : ModelProperty) : Json :=
  .obj ([("name", .str p.name), ("type", Json.ofTexts p.types), ("value", .str p.value)] ++
    Json.optional "description" p.description ++ [("required", .bool p.required)])

def ModelEntry.toJson (m : ModelEntry) : Json :=
  .obj ([("definition", .str m.definition.name), ("name", .str m.name),
      ("exportName", .str m.exportName), ("key", .str m.key)] ++
    Json.optional "description" m.description ++
    [("properties", .arr (m.properties.map ModelProperty.toJson)),
      ("dependencys", .arr (m.dependencies.map Dependency.toJson))] ++
    Json.optional "extends" m.extends)

end TypedClient
