import TypedClient.Graph
import TypedClient.Model.Entry
import TypedClient.Types.Graph

/-! The models of resolved types: one for each registered type that is a model, grouped by the file
it goes to, groups and models in the order in which they were first registered; and which of these
files import each other. A file is named by the key of its models. -/

namespace TypedClient

/-- What resolution leaves: types, the registered names, and the reference cycles that were cut. -/
structure ResolvedTypes where
  graph : TypeGraph
  registry : Assoc String TypeId
  cycles : List (List String) := []
  deriving Inhabited

namespace Model

/-! ### Imports and properties -/

/-- What the model of a type imports; the names in its own file need no import. -/
def imports (g : TypeGraph) (id : TypeId) (ownKey : String) : List Dependency :=
  let all := (g.dependencies id).map fun d =>
    let t := g.get d
    Dependency.mk t.fileKey t.name
  (all.filter fun d => d.id != ownKey).eraseDups

/-- The value of a new object's property of a built-in type. -/
def builtinValue (name : String) : String :=
  match name with
  | "string" => "\x27\x27"
  | "number" => "0"
  | "boolean" => "false"
  | "Date" => "new Date()"
  | "Record" => "\x7b\x7d"
  | _ => "null"

/-- The value of a property: in a class it depends on the type, elsewhere it is null. -/
def initialValue (t : TypeInfo) (nullable isClass : Bool) : String :=
  if !isClass then "null"
  else if t.isArray then "[]"
  else if nullable then "null"
  else if t.isBuiltin then builtinValue t.name
  else if t.isEnum then "0"
  else "null"

def properties (g : TypeGraph) (id : TypeId) (isClass : Bool) : List ModelProperty :=
  (g.get id).properties.map fun (name, p) => {
    name
    types := g.spell p.type :: (if p.nullable then ["null", "undefined"] else [])
    value := initialValue (g.get p.type) p.nullable isClass
    description := p.description
    required := !p.nullable }

/-! ### Entries -/

def memberProperty (m : EnumMember) : ModelProperty :=
  { name := m.key, value := toString m.value, required := true }

/-- The model of a type. -/
def entry (g : TypeGraph) (id : TypeId) : ModelEntry :=
  let t := g.get id
  let key := t.fileKey
  if t.isEnum then {
    definition := .enum
    name := g.spell id
    exportName := t.name
    key
    description := t.description
    properties := t.members.map memberProperty }
  else
    let isClass := t.isInterface = some false
    { definition := if isClass then .class else .interface
      name := g.spell id
      exportName := t.name
      key
      description := t.description
      properties := properties g id isClass
      dependencies := imports g id key
      «extends» := t.base.map g.spell }

/-- The items of a list, those with equal keys brought together: groups in the order of their first
items, items in their own order within a group. -/
def groupBy {α : Type} (key : α → String) (items : List α) : List α :=
  let groups := items.foldl
    (fun m a => Assoc.modify m (key a) [] fun group => group ++ [a]) ([] : Assoc String (List α))
  groups.flatMap Prod.snd

/-- The registered types that have models, each once. -/
def modelTypes (r : ResolvedTypes) : List TypeId :=
  ((Assoc.values r.registry).eraseDups).filter fun id => (r.graph.get id).isModel

/-- The models of all registered types. -/
def project (r : ResolvedTypes) : List ModelEntry :=
  (groupBy (fun id => (r.graph.get id).fileKey) (modelTypes r)).map (entry r.graph)

/-! ### Imports -/

/-- The files that the models of a file import, each once. -/
def importsOf (models : List ModelEntry) (key : String) : List String :=
  ((models.filter fun m => m.key == key).flatMap fun m =>
    m.dependencies.map Dependency.id).eraseDups

/-- All files: those of the models and those that they import. -/
def files (models : List ModelEntry) : List String :=
  (models.flatMap fun m => m.key :: m.dependencies.map Dependency.id).eraseDups

/-- The sorted imports of a file that holds a model. -/
def importsOf? (models : List ModelEntry) (key : String) : Option (List String) :=
  if models.any fun m => m.key == key then some (Text.sort (importsOf models key)) else none

/-- The groups of files that import each other, directly or through others; a file that imports
itself is a group. Groups and their files are sorted. -/
def importCycles [Graph.Components] (models : List ModelEntry) : List (List String) :=
  Graph.groups (files models) (importsOf models)

end Model

end TypedClient
