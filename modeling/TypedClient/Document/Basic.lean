import TypedClient.Document.Access
import TypedClient.Schema.Node

/-! API documents, whatever version they were written in: named schemas in an arena, operations in
the order in which their paths and methods stand, and tags. -/

namespace TypedClient

/-- The layout in which a document was written. -/
inductive Version where
  | swagger2 | openApi3
  deriving DecidableEq, Repr, Inhabited

def Version.name : Version → String
  | .swagger2 => "Swagger 2.0" | .openApi3 => "OpenAPI 3"

/-- Where a request carries a parameter. -/
inductive ParameterPlace where
  | path | query | header | cookie
  deriving DecidableEq, Repr, Inhabited

namespace ParameterPlace

def all : List ParameterPlace := [.path, .query, .header, .cookie]

def name : ParameterPlace → String
  | .path => "path" | .query => "query" | .header => "header" | .cookie => "cookie"

def ofName? (s : String) : Option ParameterPlace := all.find? fun p => p.name == s

end ParameterPlace

structure Parameter where
  name : String
  place : ParameterPlace
  required : Bool := false
  description : Option String := none
  schema : NodeId
  deriving DecidableEq, Repr, Inhabited

/-- A request or a response: the schema of its content for each media type. -/
structure Body where
  description : Option String := none
  content : Assoc String NodeId := []
  deriving DecidableEq, Repr, Inhabited

structure Operation where
  path : String
  method : HttpMethod
  operationId : Option String := none
  summary : Option String := none
  description : Option String := none
  tags : List String := []
  parameters : List Parameter := []
  request : Option Body := none
  response : Option Body := none
  limit : Option LimitedResource := none
  deriving DecidableEq, Repr, Inhabited

structure Tag where
  name : String
  description : Option String := none
  deriving DecidableEq, Repr, Inhabited

structure Document where
  version : Version
  title : Option String := none
  revision : Option String := none
  description : Option String := none
  arena : Arena := {}
  schemas : Assoc String NodeId := []
  operations : List Operation := []
  tags : List Tag := []
  deriving Inhabited

/-- What the first tag says whose name has these letters, capital or small. -/
def Document.tagDescription (d : Document) (name : String) : Option String :=
  (d.tags.find? fun t => Text.sameLetters t.name name).bind Tag.description

end TypedClient
