import TypedClient.Client.MediaType
import TypedClient.Client.RouteTree
import TypedClient.Model.Project
import TypedClient.Types.Resolver

/-! The client of a document: one action for each operation, with the types of its parameters, its
request and its response. -/

namespace TypedClient.Client

/-- How actions are made beside what the document says. -/
structure Options where
  /-- How a response is read whose media types do not tell. -/
  responseType : ResponseType := .json
  /-- Changes an action before it gets its place. -/
  hook : Option (Action → Action) := none
  deriving Inhabited

/-- An action as it is placed. -/
def Options.hooked (options : Options) (action : Action) : Action :=
  match options.hook with
  | some hook => hook action
  | none => action

variable [MediaType.Reading]

/-! ### Content -/

/-- The schema under the first media type of a kind. -/
def contentOf? (b : Body) (kind : ContentKind) : Option NodeId :=
  (b.content.find? fun p => ContentKind.of p.1 == kind).map Prod.snd

def hasContent (b : Body) (kind : ContentKind) : Bool := (contentOf? b kind).isSome

/-- The type of a node as it is written in code. -/
def spellNode (d : Document) (id : NodeId) : Resolving String := do
  let type ← Resolver.node d id
  pure ((← get).graph.spell type)

/-- The type of a request, and the fields of a form. JSON goes before forms; what is neither is
unknown. -/
def requestOf (d : Document) : Option Body → Resolving (Option String × Option (List ModelProperty))
  | none => pure (none, none)
  | some b =>
    match contentOf? b .json, contentOf? b .form with
    | some id, _ => do pure (some (← spellNode d id), none)
    | none, some id => do
      let type ← Resolver.node d id
      let fields := Model.properties (← get).graph type false
      pure (some TypeGraph.formDataName, if fields.isEmpty then none else some fields)
    | none, none => pure (some "unknown", none)

/-- How a response is read: as binary data, as JSON, or as the options say. -/
def responseTypeOf (fallback : ResponseType) : Option Body → ResponseType
  | none => fallback
  | some b =>
    if hasContent b .binary then .blob
    else if hasContent b .json then .json
    else fallback

/-- The type of a response. Binary data goes before JSON, and JSON before a schema for any media
type. -/
def returnTypeOf (d : Document) : Option Body → Resolving String
  | none => pure TypeGraph.anyName
  | some b =>
    if hasContent b .binary then pure "Blob"
    else match contentOf? b .json, contentOf? b .anything with
      | some id, _ | none, some id => spellNode d id
      | none, none => pure TypeGraph.anyName

/-! ### Actions -/

variable [Text.Transliteration]

def parameterOf (d : Document) (p : Parameter) : Resolving ActionParameter := do
  let type ← spellNode d p.schema
  pure {
    name := p.name, description := p.description, required := p.required
    types := [type]
    isPath := p.place == .path }

/-- The parameters that a request carries in one of `places`. -/
def parametersIn (d : Document) (o : Operation) (places : List ParameterPlace) :
    Resolving (List ActionParameter) :=
  (o.parameters.filter fun p => places.contains p.place).mapM (parameterOf d)

/-- The segments of an operation's path before the last one, and the last one. -/
def routeOf (o : Operation) : List String × Option String :=
  let segments := Route.segments o.path
  (segments.dropLast, segments.getLast?)

def actionOf (d : Document) (options : Options) (o : Operation) : Resolving Action := do
  let parameters ← parametersIn d o [.path, .query]
  let header ← parametersIn d o [.header]
  let (requestBody, requestFields) ← requestOf d o.request
  let returnType ← returnTypeOf d o.response
  pure {
    url := o.path
    method := o.method
    name := Route.actionName (routeOf o).2 o.method.lowerName
    description := o.summary.or o.description
    responseType := responseTypeOf options.responseType o.response
    parameters, header, requestBody, requestFields, returnType
    limit := o.limit
    operationId := o.operationId }

/-- Adds the actions of operations to a tree. -/
def placeAll (d : Document) (options : Options) :
    List Operation → RouteTree × List Warning → Resolving (RouteTree × List Warning)
  | [], placed => pure placed
  | o :: rest, (tree, warnings) => do
    let action ← actionOf d options o
    let (tree, more) := tree.place (routeOf o).1 (options.hooked action)
    placeAll d options rest (tree, warnings ++ more)

/-- The client of a document, and what was renamed in it. -/
def project (d : Document) (options : Options) : Resolving (ApiDefinition × List Warning) := do
  let (tree, warnings) ← placeAll d options d.operations (RouteTree.empty, [])
  pure (tree.arrange d.tagDescription, warnings)

end TypedClient.Client
