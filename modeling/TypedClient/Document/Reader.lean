import TypedClient.Document.Basic
import TypedClient.Document.Upgrade
import TypedClient.Schema.Classify

/-! Reading documents. Both layouts are read as the newer one. An operation is a member of a path
item that is named for a method and lists responses; of the responses, the one for code 200
counts. -/

namespace TypedClient.Document

/-! ### Parts of an operation -/

/-- The schema of a parameter, or that of its first content. -/
def schemaOf? (v : Json) : Option Json :=
  match v.get? "schema" with
  | some schema => some schema
  | none =>
    match (v.getObject? "content").getD [] with
    | (_, media) :: _ => media.get? "schema"
    | [] => none

/-- The method and the path of an operation. -/
structure Spot where
  method : HttpMethod
  path : String

def Spot.text (s : Spot) : String := s.method.name ++ " " ++ s.path

def Spot.malformed {α : Type} (s : Spot) (fault : OperationFault) : Building α :=
  throw (.malformedOperation s.method s.path fault)

def readParameter (spot : Spot) (v : Json) : Building Parameter :=
  match v.getString? "name" with
  | none => spot.malformed .namelessParameter
  | some name =>
    let placeName := (v.getString? "in").getD ""
    match ParameterPlace.ofName? placeName, schemaOf? v with
    | none, _ => spot.malformed (.parameterPlace name placeName)
    | some _, none => spot.malformed (.parameterSchema name)
    | some place, some schema => do
      pure {
        name, place
        required := (v.getBool? "required").getD false
        description := v.getString? "description"
        schema := ← Schema.classify schema (spot.text ++ " " ++ name) }

def readContent (location : String) : List (String × Json) → Building (Assoc String NodeId)
  | [] => pure []
  | (mediaType, entry) :: rest => do
    let id ← Schema.classify ((entry.get? "schema").getD .null) (location ++ " " ++ mediaType)
    pure ((mediaType, id) :: (← readContent location rest))

def readBody (location : String) (v : Json) : Building Body := do
  let content ← readContent location ((v.getObject? "content").getD [])
  pure { description := v.getString? "description", content }

/-- The body that `v` is or refers to. -/
def readBody? (root : Json) (location : String) : Option Json → Building (Option Body)
  | none => pure none
  | some v => do
    let v ← Building.ofExcept (Pointer.follow root v)
    some <$> readBody location v

def readLimit? (spot : Spot) : Option Json → Building (Option LimitedResource)
  | none => pure none
  | some v =>
    match LimitedResource.ofJson v with
    | .ok limit => pure (some limit)
    | .error why => spot.malformed (.limit why)

def readOperation (root : Json) (spot : Spot) (shared : List Json) (op : Json) :
    Building Operation := do
  let merged ← Building.ofExcept (mergeParameters root shared (parametersOf op))
  let parameters ← merged.mapM fun p => readParameter spot p.2
  let request ← readBody? root (spot.text ++ " requestBody") (op.get? "requestBody")
  let response ← readBody? root (spot.text ++ " 200") ((op.get? "responses").bind (·.get? "200"))
  let limit ← readLimit? spot (op.get? "x-limit")
  pure {
    path := spot.path
    method := spot.method
    operationId := op.getString? "operationId"
    summary := op.getString? "summary"
    description := op.getString? "description"
    tags := ((op.getArray? "tags").getD []).filterMap Json.asString?
    parameters, request, response, limit }

/-! ### Paths -/

/-- The operation under a member of a path item, if it is one. -/
def readMember (root : Json) (path : String) (shared : List Json) (member : String × Json) :
    Building (Option Operation) :=
  match HttpMethod.ofName? member.1 with
  | none => pure none
  | some method =>
    let spot : Spot := ⟨method, path⟩
    match member.2 with
    | .obj fields =>
      if Assoc.has fields "responses" then some <$> readOperation root spot shared member.2
      else pure none
    | _ => spot.malformed .notAnObject

def readPathItem (root : Json) (path : String) (item : Json) : Building (List Operation) := do
  let operations ← (item.asObject?.getD []).mapM (readMember root path (parametersOf item))
  pure (operations.filterMap id)

def readPaths (root : Json) : Building (List Operation) := do
  let operations ← ((root.getObject? "paths").getD []).mapM fun (path, item) => do
    let item ← Building.ofExcept (Pointer.follow root item)
    readPathItem root path item
  pure operations.flatten

/-! ### The document -/

def readSchemas : List (String × Json) → Building (Assoc String NodeId)
  | [] => pure []
  | (name, v) :: rest => do
    let id ← Schema.classify v name
    pure ((name, id) :: (← readSchemas rest))

/-- The named schemas of a document in the newer layout. -/
def schemasOf (root : Json) : Assoc String Json :=
  ((root.get? "components").bind (·.getObject? "schemas")).getD []

def readTag? (v : Json) : Option Tag :=
  (v.getString? "name").map fun name => { name, description := v.getString? "description" }

/-- Reads a document in the newer layout. -/
def readLayout (version : Version) (root : Json) : Except Failure Document :=
  let build : Building (Assoc String NodeId × List Operation) := do
    let schemas ← readSchemas (schemasOf root)
    pure (schemas, ← readPaths root)
  match build.run.run {} with
  | (.error e, _) => .error e
  | (.ok (schemas, operations), arena) =>
    let info (key : String) := (root.get? "info").bind (·.getString? key)
    .ok {
      version
      title := info "title"
      revision := info "version"
      description := info "description"
      arena, schemas, operations
      tags := ((root.getArray? "tags").getD []).filterMap readTag? }

/-- Reads a document in either layout. -/
def ofJson (root : Json) : Except Failure Document :=
  if (root.get? "swagger").isSome then
    match Upgrade.upgrade root with
    | .ok upgraded => readLayout .swagger2 upgraded
    | .error e => .error e
  else if (root.get? "openapi").isSome then readLayout .openApi3 root
  else .error (.invalidDocument .noVersion)

def ofText (text : String) : Except Failure Document :=
  match Json.parse text with
  | .ok root => ofJson root
  | .error e => .error (.invalidDocument (.notJson e))

end TypedClient.Document
