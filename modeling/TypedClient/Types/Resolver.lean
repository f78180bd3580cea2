import TypedClient.Document.Basic
import TypedClient.Failure
import TypedClient.TypeName
import TypedClient.Types.Graph

/-! Resolving schemas to types. A node is resolved once and a named schema is registered once. The
names being resolved form a path; a reference to one of them is cut: it stands for `any`, and the
part of the path from that name on is recorded as a cycle.

Resolution goes from a node to older nodes, or along a reference to a schema whose name is not on
the path yet, so it ends. -/

namespace TypedClient

/-- What has been resolved so far. -/
structure Resolver where
  graph : TypeGraph := TypeGraph.initial
  registry : Assoc String TypeId := []
  memo : Assoc NodeId TypeId := []
  /-- The types that take the name of the schema they are declared under, with their nodes. -/
  nameable : Assoc TypeId NodeId := []
  cycles : List (List String) := []
  deriving Inhabited

/-- Steps of resolution, which may fail; what was resolved before a failure is kept. -/
abbrev Resolving := ExceptT Failure (StateM Resolver)

namespace Resolver

/-! ### Where resolution stands -/

variable {m : Type → Type}

/-- The names on the path, outermost first, and how to go on from here. What is done for a node can
be done in any monad that keeps a resolver and may fail. -/
structure Site (m : Type → Type) where
  document : Document
  path : List String
  child : NodeId → m TypeId
  reference : String → m TypeId

namespace Site

def node (s : Site m) (id : NodeId) : SchemaNode := s.document.arena.get id

/-- The schema being resolved, as failures name it. -/
def location (s : Site m) : String := s.path.getLast?.getD "<inline schema>"

def unsupported [MonadExceptOf Failure m] {α : Type} (s : Site m) (fault : CombinationFault) :
    m α :=
  throw (.unsupportedCombination s.location fault)

end Site

/-- Sorts the members of an `allOf` into references and plain objects. -/
def sortMembers (s : Site m) :
    List NodeId → Except CombinationFault (List NodeId × List ObjectShape)
  | [] => .ok ([], [])
  | member :: rest =>
    match (s.node member).kind with
    | .reference _ => (sortMembers s rest).map fun (bases, plain) => (member :: bases, plain)
    | .object shape =>
      if shape.allOf.isEmpty then
        (sortMembers s rest).map fun (bases, plain) => (bases, shape :: plain)
      else .error (.memberKind (SchemaKind.object shape).label)
    | kind => .error (.memberKind kind.label)

/-! ### Steps on the state -/

variable [Monad m] [MonadStateOf Resolver m] [MonadExceptOf Failure m]

def insertType (t : TypeInfo) : m TypeId :=
  modifyGet fun r => let (id, graph) := r.graph.insert t; (id, { r with graph })

def intrinsic (name : String) : m TypeId :=
  modifyGet fun r => let (id, graph) := r.graph.intrinsic name; (id, { r with graph })

def typeInfo (id : TypeId) : m TypeInfo := do pure ((← get).graph.get id)

/-- Lets a type take the name of the schema that `node` declares. -/
def markNameable (id : TypeId) (node : NodeId) : m Unit :=
  modify fun r => { r with nameable := Assoc.put r.nameable id node }

def remember (node : NodeId) (id : TypeId) : m Unit :=
  modify fun r => { r with memo := Assoc.put r.memo node id }

def register (name : String) (id : TypeId) : m Unit :=
  modify fun r => { r with registry := Assoc.put r.registry name id }

/-! ### Primitives, arrays and enumerations -/

/-- The built-in type of a primitive schema. -/
def primitiveName (primitive : Primitive) (format : Option String) : String :=
  match primitive with
  | .integer | .number => "number"
  | .boolean => "boolean"
  | .string => if format = some "date-time" then "Date" else TypeGraph.stringName

def resolveArray (s : Site m) (schema : SchemaNode) (items : Option NodeId) : m TypeId := do
  let element ← (match items with
    | some items => s.child items
    | none => pure TypeGraph.any)
  let name := (← typeInfo element).name ++ "[]"
  insertType { TypeInfo.builtin name with
    isArray := true, element := some element, description := schema.description }

/-- The integer that a literal is, if it is one of 64 bits with a sign. -/
def wholeLiteral? : Json → Option Int
  | .num (.int n) => if n ≤ 9223372036854775807 then some n else none
  | _ => none

/-- The key of a literal among text literals. -/
def literalKey : Json → String
  | .str s => s
  | v => v.text

/-- The members of an enumeration without named constants. Texts count from zero; integers are
called by their position, counted from one. -/
def literalMembers (literals : List Json) : List EnumMember :=
  match literals with
  | .str _ :: _ => literals.zipIdx.map fun (v, i) => { key := literalKey v, value := i }
  | .num _ :: _ =>
    let members := literals.zipIdx.mapM fun (v, i) =>
      (wholeLiteral? v).map fun n => EnumMember.mk ("Item" ++ toString (i + 1)) n
    members.getD []
  | _ => []

def resolveEnum (id : NodeId) (schema : SchemaNode) (primitive : Primitive)
    (literals : List Json) : m TypeId := do
  let type ← insertType { TypeInfo.builtin (primitiveName primitive none) with
    isEnum := true
    members := schema.hints.enumValues.getD (literalMembers literals)
    description := schema.description }
  markNameable type id
  pure type

/-! ### Objects -/

/-- The base type and the objects to merge. One member is the base, whatever it is; of several, one
may be a reference, which is the base then, and all others are plain objects. -/
def resolveAllOf (s : Site m) (members : List NodeId) : m (Option TypeId × List ObjectShape) :=
  match members with
  | [] => pure (none, [])
  | [member] => do pure (some (← s.child member), [])
  | members =>
    match sortMembers s members with
    | .error fault => s.unsupported fault
    | .ok ([], plain) => pure (none, plain)
    | .ok ([base], plain) => do pure (some (← s.child base), plain)
    | .ok (bases, _) => s.unsupported (.severalBases bases.length)

/-- The properties of several objects: each name where it first stands, with its last schema. -/
def mergeProperties (shapes : List ObjectShape) : Assoc String NodeId :=
  shapes.foldl (fun merged shape => merged.putAll shape.properties) []

def resolveProperties (s : Site m) (required : List String) :
    List (String × NodeId) → m (Assoc String Property)
  | [] => pure []
  | (name, id) :: rest => do
    let schema := s.node id
    let isRequired := required.contains name
    let property : Property := {
      type := ← s.child id
      nullable := schema.nullable && !isRequired
      required := isRequired
      description := schema.description }
    pure ((name, property) :: (← resolveProperties s required rest))

/-- What kind of generic type an object is, and whether it may take the name of its schema. -/
def applyDefinition (s : Site m) (hints : TypeHints) (shape : ObjectShape) (t : TypeInfo) :
    m (TypeInfo × Bool) :=
  if hints.isGenericTypeDefinition then pure (t, true)
  else match hints.genericTypeDefinition with
    | some definition => do
      let definition ← s.child definition
      let d ← typeInfo definition
      let t := { t with isBuiltin := d.isBuiltin, name := d.name }
      pure ({ t with genericDefinition := some definition }, !d.isBuiltin)
    | none =>
      if shape.additional.isSome then pure ({ t with name := TypeGraph.recordName }, false)
      else throw (.genericDefinitionMissing s.location)

def resolveAll (s : Site m) : List NodeId → m (List TypeId)
  | [] => pure []
  | id :: rest => do
    let type ← s.child id
    pure (type :: (← resolveAll s rest))

/-- Adds what makes an object generic: its arguments, or the key and the value of a record. -/
def applyGenerics (s : Site m) (hints : TypeHints) (shape : ObjectShape) (t : TypeInfo) :
    m (TypeInfo × Bool) := do
  if hints.isGenericType then
    let (t, nameable) ← applyDefinition s hints shape t
    let arguments ← resolveAll s hints.genericArguments
    pure ({ t with genericArguments := arguments }, nameable)
  else
    match shape.additional with
    | none => pure (t, true)
    | some additional =>
      let key ← intrinsic TypeGraph.stringName
      let value ← (match additional with
        | .any => pure key
        | .schema id => s.child id)
      pure ({ t with
        name := TypeGraph.recordName, isGeneric := true, genericArguments := [key, value] }, false)

def resolveObject (s : Site m) (id : NodeId) (schema : SchemaNode) (shape : ObjectShape) :
    m TypeId := do
  let (base, merged) ← resolveAllOf s shape.allOf
  let required := shape.required ++ merged.flatMap ObjectShape.required
  let properties ← resolveProperties s required (mergeProperties (merged ++ [shape]))
  let hints := schema.hints
  let (t, nameable) ← applyGenerics s hints shape { TypeInfo.builtin "object" with
    properties, base
    isInterface := hints.isInterface
    isGeneric := hints.isGenericType
    isGenericDefinition := hints.isGenericTypeDefinition
    isGenericParameter := hints.isGenericParameter
    description := schema.description }
  let type ← insertType { t with fullName := t.name }
  if nameable then markNameable type id
  pure type

/-! ### Combinations -/

/-- Whether a member says nothing but that null is allowed. -/
def isNullOnly (node : SchemaNode) : Bool := node.nullable && node.kind.isEmpty

def resolveCombination (s : Site m) (id : NodeId) (schema : SchemaNode) (how : Combination)
    (members : List NodeId) : m TypeId :=
  match members.filter (fun m => !isNullOnly (s.node m)), how with
  | [], _ => pure TypeGraph.any
  | [member], _ => s.child member
  | members, .allOf => resolveObject s id schema { allOf := members }
  | members, how => s.unsupported (.alternatives how members.length)

/-! ### Nodes and names -/

def resolveKind (s : Site m) (id : NodeId) : m TypeId :=
  let schema := s.node id
  match schema.kind with
  | .empty => pure TypeGraph.any
  | .reference name => s.reference name
  | .object shape => resolveObject s id schema shape
  | .array items => resolveArray s schema items
  | .primitive primitive format => intrinsic (primitiveName primitive format)
  | .enum primitive literals => resolveEnum id schema primitive literals
  | .combination how members => resolveCombination s id schema how members

/-- Cuts a reference to a name on the path. -/
def cut (path : List String) (name : String) : m TypeId := do
  let cycle := path.dropWhile (· != name) ++ [name]
  modify fun r => { r with cycles := r.cycles ++ [cycle] }
  pure TypeGraph.any

/-- Gives a type the name of the schema that `node` declares, if it was made for that node; aliases
and built-in types keep their own names. -/
def applyName (name : String) (node : NodeId) (id : TypeId) : m Unit := do
  if Assoc.get? (← get).nameable id = some node then
    match TypeName.parse name with
    | .error e => throw e
    | .ok parsed =>
      modify fun r => { r with graph := r.graph.set id { r.graph.get id with
        name := parsed.name, fullName := parsed.fullName, scope := parsed.scope,
        isBuiltin := false } }

/-- The number of schemas whose names are not on the path. -/
def unvisited (d : Document) (path : List String) : Nat :=
  (d.schemas.filter fun p => !path.contains p.1).length

theorem unvisited_lt {d : Document} {path : List String} {name : String} {node : NodeId}
    (hp : ¬ path.contains name) (hn : Assoc.get? d.schemas name = some node) :
    unvisited d (path ++ [name]) < unvisited d path := by
  unfold unvisited
  generalize d.schemas = schemas at hn
  have le : ∀ l : Assoc String NodeId,
      (l.filter fun p => !(path ++ [name]).contains p.1).length ≤
        (l.filter fun p => !path.contains p.1).length := by
    intro l
    simp only [← List.countP_eq_length_filter]
    apply List.countP_mono_left
    intro p _ h
    simp only [List.contains_eq_mem, List.mem_append, Bool.not_eq_true'] at *
    simp_all
  induction schemas with
  | nil => simp at hn
  | cons p rest ih =>
    obtain ⟨k, v⟩ := p
    rw [Assoc.get?] at hn
    have hle := le rest
    by_cases hk : k = name
    · subst hk
      simp only [List.contains_eq_mem, decide_eq_true_eq] at hp
      simp only [List.filter_cons, List.contains_eq_mem] at hle ⊢
      simp [hp] at hle ⊢
      omega
    · rw [if_neg hk] at hn
      have := ih hn
      simp only [List.filter_cons, List.contains_eq_mem] at this ⊢
      by_cases hm : k ∈ path <;> simp [hm, hk] at this ⊢ <;> omega

/-- More than every node that declares a schema. -/
def rootBound (d : Document) : Nat := d.schemas.foldr (fun p bound => max (p.2 + 1) bound) 0

theorem lt_rootBound {d : Document} {name : String} {node : NodeId}
    (hn : Assoc.get? d.schemas name = some node) : node < rootBound d := by
  unfold rootBound
  generalize d.schemas = schemas at hn
  induction schemas with
  | nil => simp at hn
  | cons p rest ih =>
    obtain ⟨k, v⟩ := p
    rw [Assoc.get?] at hn
    rw [List.foldr_cons]
    split at hn
    · cases hn
      exact Nat.le_max_left _ _
    · exact Nat.lt_of_lt_of_le (ih hn) (Nat.le_max_right _ _)

/-- How deep calls are nested below a call for a named schema: with each name that joins the path
they go down the nodes of one schema. -/
def depthBelow (d : Document) (path : List String) : Nat := unvisited d path * (rootBound d + 1)

theorem depthBelow_lt {d : Document} {path : List String} {name : String} {node : NodeId}
    (hp : ¬ path.contains name) (hn : Assoc.get? d.schemas name = some node) :
    depthBelow d (path ++ [name]) + node + 1 < depthBelow d path := by
  have hfewer : unvisited d (path ++ [name]) + 1 ≤ unvisited d path := unvisited_lt hp hn
  have hmul := Nat.mul_le_mul_right (rootBound d + 1) hfewer
  rw [Nat.add_one_mul] at hmul
  have hroot := lt_rootBound hn
  simp only [depthBelow, NodeId] at hroot ⊢
  omega

mutual

/-- The type of a node, resolved at most once. -/
def resolveNode (d : Document) (path : List String) (id : NodeId) : Resolving TypeId := do
  match Assoc.get? (← get).memo id with
  | some type => pure type
  | none =>
    let type ← resolveKind {
      document := d
      path
      child := fun child => if child < id then resolveNode d path child else pure TypeGraph.any
      reference := fun name => resolveReference d path name } id
    remember id type
    pure type
termination_by depthBelow d path + id + 1
decreasing_by
  · simp only [NodeId] at *; omega
  · omega

/-- The type of a named schema, registered at most once. -/
def resolveReference (d : Document) (path : List String) (name : String) : Resolving TypeId := do
  match Assoc.get? (← get).registry name with
  | some type => pure type
  | none =>
    if path.contains name then cut path name
    else match _ : Assoc.get? d.schemas name with
      | none => throw (.unresolvedReference name)
      | some node => do
        let type ← resolveNode d (path ++ [name]) node
        applyName name node type
        register name type
        pure type
termination_by depthBelow d path
decreasing_by exact depthBelow_lt ‹_› ‹_›

end

theorem resolveReference_eq (d : Document) (path : List String) (name : String) :
    resolveReference d path name = (do
      match Assoc.get? (← get).registry name with
      | some type => pure type
      | none =>
        if path.contains name then cut path name
        else match Assoc.get? d.schemas name with
          | none => throw (.unresolvedReference name)
          | some node => do
            let type ← resolveNode d (path ++ [name]) node
            applyName name node type
            register name type
            pure type) := by
  rw [resolveReference]
  refine bind_congr fun r => ?_
  cases Assoc.get? r.registry name with
  | some type => rfl
  | none =>
    dsimp only
    split
    · rfl
    · split <;> split <;> simp_all

/-! ### Resolving from outside -/

/-- The type of a schema by its name. -/
def named (d : Document) (name : String) : Resolving TypeId := resolveReference d [] name

/-- The type of a schema by its node. -/
def node (d : Document) (id : NodeId) : Resolving TypeId := resolveNode d [] id

/-- Resolves all named schemas in order. -/
def all (d : Document) : Resolving Unit :=
  d.schemas.forM fun p => do discard (named d p.1)

end Resolver

end TypedClient
