import TypedClient.Pointer

/-! Documents of the older layout in the newer one. Schemas move to the components; a body
parameter and form fields become a request body; the one schema of a response becomes its content
for each media type that the operation produces. Only what is read later is carried over. In both
layouts the parameters of an operation are those of its path, then its own; a later parameter takes
the place of an earlier one with the same name and place. -/

namespace TypedClient.Document

/-! ### Parameters -/

/-- A parameter's name and place as they are written; what is missing reads as the empty text. -/
def parameterKey (v : Json) : String × String :=
  ((v.getString? "name").getD "", (v.getString? "in").getD "")

/-- One parameter after those before it. -/
def mergeParameter (root : Json) (merged : Assoc (String × String) Json) (v : Json) :
    Except Failure (Assoc (String × String) Json) :=
  (Pointer.follow root v).map fun v => merged.put (parameterKey v) v

/-- The parameters of a path and of one of its operations by name and place, references followed. -/
def mergeParameters (root : Json) (shared own : List Json) :
    Except Failure (Assoc (String × String) Json) :=
  (shared ++ own).foldlM (mergeParameter root) []

/-- The parameters listed in a path item or an operation. -/
def parametersOf (v : Json) : List Json := (v.getArray? "parameters").getD []

/-! ### The newer layout -/

namespace Upgrade

def defaultMediaType : String := "application/json"

def formMediaType : String := "multipart/form-data"

/-- The media types in a list, or the default one when it names none. -/
def mediaTypes (v : Option Json) : List String :=
  match ((v.bind Json.asArray?).getD []).filterMap Json.asString? with
  | [] => [defaultMediaType]
  | types => types

/-- What an operation has under `key` of media types, else what its document has. -/
def mediaTypesOf (op : Json) (key : String) (inherited : List String) : List String :=
  match op.get? key with
  | none => inherited
  | some v => mediaTypes (some v)

/-- The same schema under each media type. -/
def contentOf (types : List String) (schema : Json) : Json :=
  .obj (Assoc.ofPairs (types.map fun t => (t, .obj [("schema", schema)])))

/-- The members of an object under `keys`, in that order. -/
def pick (keys : List String) (v : Json) : Assoc String Json :=
  keys.filterMap fun key => (v.get? key).map fun value => (key, value)

/-! ### Parameters -/

/-- The keywords of a parameter that say nothing about its schema. -/
def parameterKeywords : List String :=
  ["name", "in", "required", "description", "collectionFormat", "allowEmptyValue"]

/-- The schema of a parameter: its own, or the keywords that stand in the parameter itself. -/
def parameterSchema (v : Json) : Json :=
  match v with
  | .obj fields =>
    match Assoc.get? fields "schema" with
    | some schema => schema
    | none => .obj (fields.filter fun p => !parameterKeywords.contains p.1)
  | _ => .null

/-- A parameter that stays one. -/
def upgradeParameter (v : Json) : Json :=
  .obj ((pick ["name", "in", "required", "description"] v).put "schema" (parameterSchema v))

def isBody (p : (String × String) × Json) : Bool := p.1.2 == "body"

def isForm (p : (String × String) × Json) : Bool := p.1.2 == "formData"

/-- The request that a body parameter describes. -/
def bodyRequest (types : List String) (v : Json) : Json :=
  .obj ([("content", contentOf types ((v.get? "schema").getD .null))] ++ pick ["description"] v)

/-- The request that form fields describe: one object. -/
def formRequest (fields : Assoc (String × String) Json) : Json :=
  let required := fields.filter fun p => (p.2.getBool? "required").getD false
  contentOf [formMediaType] (.obj [
    ("type", .str "object"),
    ("properties", .obj (Assoc.ofPairs (fields.map fun p => (p.1.1, parameterSchema p.2)))),
    ("required", .arr (required.map fun p => .str p.1.1))])

/-- The request body of an operation: the last body parameter, or else the form fields. -/
def request? (types : List String) (merged : Assoc (String × String) Json) : Option Json :=
  match (merged.filter isBody).getLast? with
  | some (_, v) => some (bodyRequest types v)
  | none =>
    match merged.filter isForm with
    | [] => none
    | fields => some (.obj [("content", formRequest fields)])

/-! ### Responses -/

def upgradeResponse (types : List String) (v : Json) : Json :=
  .obj (pick ["description"] v ++
    match v.get? "schema" with
    | some schema => [("content", contentOf types schema)]
    | none => [])

def upgradeResponses (root : Json) (types : List String) (op : Json) :
    Except Failure (Assoc String Json) :=
  ((op.getObject? "responses").getD []).mapM fun (code, v) => do
    pure (code, upgradeResponse types (← Pointer.follow root v))

/-! ### Operations and paths -/

def copiedKeywords : List String :=
  ["operationId", "summary", "description", "tags", "deprecated", "x-limit"]

/-- The media types that a document takes and gives where an operation does not say. -/
structure Defaults where
  consumes : List String
  produces : List String

def upgradeOperation (root : Json) (defaults : Defaults) (shared : List Json) (op : Json) :
    Except Failure Json := do
  let merged ← mergeParameters root shared (parametersOf op)
  let kept := merged.filter fun p => !isBody p && !isForm p
  let request := request? (mediaTypesOf op "consumes" defaults.consumes) merged
  let responses ← upgradeResponses root (mediaTypesOf op "produces" defaults.produces) op
  pure (.obj (pick copiedKeywords op ++
    [("parameters", .arr (kept.map fun p => upgradeParameter p.2))] ++
    (request.toList.map fun v => ("requestBody", v)) ++
    [("responses", .obj responses)]))

/-- A path item; what is no method is left out, what is no operation is kept as it is. -/
def upgradePathItem (root : Json) (defaults : Defaults) (item : Json) : Except Failure Json :=
  match item with
  | .obj members => do
    let operations := members.filter fun p => (HttpMethod.ofName? p.1).isSome
    let upgraded ← operations.mapM fun (key, op) =>
      match op with
      | .obj _ => do pure (key, ← upgradeOperation root defaults (parametersOf item) op)
      | op => pure (key, op)
    pure (.obj upgraded)
  | item => .ok item

def upgradePaths (root : Json) : Except Failure (Assoc String Json) :=
  let defaults : Defaults := {
    consumes := mediaTypes (root.get? "consumes")
    produces := mediaTypes (root.get? "produces") }
  ((root.getObject? "paths").getD []).mapM fun (path, item) => do
    let item ← Pointer.follow root item
    pure (path, ← upgradePathItem root defaults item)

/-- A whole document in the newer layout. -/
def upgrade (root : Json) : Except Failure Json := do
  let paths ← upgradePaths root
  pure (.obj [
    ("openapi", .str "3.0.0"),
    ("info", (root.get? "info").getD (.obj [])),
    ("tags", (root.get? "tags").getD (.arr [])),
    ("paths", .obj paths),
    ("components", .obj [("schemas", (root.get? "definitions").getD (.obj []))])])

end Upgrade

end TypedClient.Document
