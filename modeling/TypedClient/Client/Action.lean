import TypedClient.Document.Access
import TypedClient.Model.Entry

/-! The functions of a client: actions, grouped into controllers, which may stand in namespaces. -/

namespace TypedClient

/-- How the body of a response is read. -/
inductive ResponseType where
  | json | blob | text
  deriving DecidableEq, Repr, Inhabited

namespace ResponseType

def all : List ResponseType := [.json, .blob, .text]

def name : ResponseType → String
  | .json => "json" | .blob => "blob" | .text => "text"

/-- Reads a response type in any mixture of capitals and small letters. -/
def ofName? (s : String) : Option ResponseType := all.find? fun r => Text.sameLetters r.name s

end ResponseType

/-- A parameter in the path, in the query or in a header. -/
structure ActionParameter where
  name : String
  description : Option String := none
  required : Bool := false
  types : List String := []
  isPath : Bool := false
  deriving DecidableEq, Repr, Inhabited

structure Action where
  url : String
  method : HttpMethod
  name : String
  description : Option String := none
  responseType : ResponseType := .json
  parameters : List ActionParameter := []
  header : List ActionParameter := []
  requestBody : Option String := none
  requestFields : Option (List ModelProperty) := none
  returnType : String
  limit : Option LimitedResource := none
  operationId : Option String := none
  deriving DecidableEq, Repr, Inhabited

structure Controller where
  name : String
  description : Option String := none
  actions : List Action := []
  deriving DecidableEq, Repr, Inhabited

structure ClientNamespace where
  name : String
  description : Option String := none
  controllers : List Controller := []
  deriving DecidableEq, Repr, Inhabited

/-- A model that the file of a client imports. -/
structure ClientDependency where
  id : String
  modules : String
  fileId : String
  deriving DecidableEq, Repr, Inhabited

/-- A whole client. Each of its lists may be empty. -/
structure ApiDefinition where
  namespaces : List ClientNamespace := []
  controllers : List Controller := []
  actions : List Action := []
  dependencies : List ClientDependency := []
  deriving DecidableEq, Repr, Inhabited

namespace ApiDefinition

/-- The actions of a controller, each with the name of its group. -/
def grouped (group : String) (c : Controller) : List (String × Action) :=
  c.actions.map fun a => (group, a)

/-- All actions, each with the name of its group: those outside of any first, then those in
controllers, then those in namespaces. -/
def allActions (d : ApiDefinition) : List (String × Action) :=
  (d.actions.map fun a => ("", a)) ++
    (d.controllers.flatMap fun c => grouped c.name c) ++
    d.namespaces.flatMap fun n => n.controllers.flatMap fun c => grouped (n.name ++ "." ++ c.name) c

end ApiDefinition

/-! ### As JSON -/

def ActionParameter.toJson (p : ActionParameter) : Json :=
  .obj ([("name", .str p.name)] ++ Json.optional "description" p.description ++
    [("required", .bool p.required), ("type", Json.ofTexts p.types), ("isPath", .bool p.isPath)])

def Action.toJson (a : Action) : Json :=
  .obj ([("url", .str a.url), ("method", .str a.method.name), ("name", .str a.name)] ++
    Json.optional "description" a.description ++
    [("responseType", .str a.responseType.name),
      ("parameters", .arr (a.parameters.map ActionParameter.toJson)),
      ("header", .arr (a.header.map ActionParameter.toJson))] ++
    Json.optional "requestBody" a.requestBody ++
    (a.requestFields.toList.map fun fields =>
      ("requestBodyFormData", .arr (fields.map ModelProperty.toJson))) ++
    [("returnType", .str a.returnType)] ++
    (a.limit.toList.map fun l => ("limit", l.toJson)) ++
    Json.optional "operationId" a.operationId)

def Controller.toJson (c : Controller) : Json :=
  .obj ([("name", .str c.name)] ++ Json.optional "description" c.description ++
    [("actions", .arr (c.actions.map Action.toJson))])

def ClientNamespace.toJson (n : ClientNamespace) : Json :=
  .obj ([("name", .str n.name)] ++ Json.optional "description" n.description ++
    [("controllers", .arr (n.controllers.map Controller.toJson))])

def ClientDependency.toJson (d : ClientDependency) : Json :=
  .obj [("id", .str d.id), ("modules", .str d.modules), ("fileId", .str d.fileId)]

def ApiDefinition.toJson (d : ApiDefinition) : Json :=
  .obj [("namespaces", .arr (d.namespaces.map ClientNamespace.toJson)),
    ("controllers", .arr (d.controllers.map Controller.toJson)),
    ("actions", .arr (d.actions.map Action.toJson)),
    ("dependencys", .arr (d.dependencies.map ClientDependency.toJson))]

end TypedClient
