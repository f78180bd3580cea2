import TypedClient.Proofs.Resolution.Unguarded

/-! Resolution ends on every document that was read. The calls are made here without any guard, but
to a given depth only; what happens beyond that depth is left open. From a depth on that is told by
the names not on the path and by the node, the outcome does not depend on what happens beyond it:
no call is nested deeper, whatever has been resolved before. Each call makes finitely many others,
so there are finitely many in all. -/

namespace TypedClient

namespace Resolver

mutual

/-- The type of a node, resolved by calls nested at most so deep. -/
def nodeWithin (d : Document) (beyond : Resolving TypeId) :
    Nat → List String → NodeId → Resolving TypeId
  | 0, _, _ => beyond
  | depth + 1, path, id => do
    match Assoc.get? (← get).memo id with
    | some type => pure type
    | none =>
      let type ← resolveKind {
        document := d
        path
        child := nodeWithin d beyond depth path
        reference := referenceWithin d beyond depth path } id
      remember id type
      pure type

/-- The type of a named schema, resolved by calls nested at most so deep. -/
def referenceWithin (d : Document) (beyond : Resolving TypeId) :
    Nat → List String → String → Resolving TypeId
  | 0, _, _ => beyond
  | depth + 1, path, name => do
    match Assoc.get? (← get).registry name with
    | some type => pure type
    | none =>
      if path.contains name then cut path name
      else match Assoc.get? d.schemas name with
        | none => throw (.unresolvedReference name)
        | some node => do
          let type ← nodeWithin d beyond depth (path ++ [name]) node
          applyName name node type
          register name type
          pure type

end

/-- Resolves all named schemas in order, by calls nested at most so deep. -/
def allWithin (d : Document) (beyond : Resolving TypeId) (depth : Nat) : Resolving Unit :=
  d.schemas.forM fun p => do discard (referenceWithin d beyond depth [] p.1)

variable {d : Document} (hd : d.Forest) (beyond : Resolving TypeId)

include hd in
theorem within_eq (depth : Nat) :
    (∀ path id, depthBelow d path + id + 2 ≤ depth →
      nodeWithin d beyond depth path id = resolveNode d path id) ∧
    (∀ path name, depthBelow d path + 1 ≤ depth →
      referenceWithin d beyond depth path name = resolveReference d path name) := by
  induction depth with
  | zero =>
    constructor
    · intro path id h
      exact absurd h (by omega)
    · intro path name h
      exact absurd h (by omega)
  | succ depth ih =>
    obtain ⟨ihNode, ihReference⟩ := ih
    constructor
    · intro path id h
      have href : referenceWithin d beyond depth path = resolveReference d path :=
        funext fun name => ihReference path name (by omega)
      rw [nodeWithin, resolveNode_eq hd, href]
      refine bind_congr fun r => ?_
      cases Assoc.get? r.memo id with
      | some type => rfl
      | none =>
        dsimp only
        congr 1
        refine resolveKind_with (s := site d path) fun c hc => ihNode path c ?_
        have hlt : c < id := hd.next_lt hc
        simp only [NodeId] at hlt h ⊢
        omega
    · intro path name h
      rw [referenceWithin, resolveReference_eq]
      refine bind_congr fun r => ?_
      cases Assoc.get? r.registry name with
      | some type => rfl
      | none =>
        dsimp only
        split
        · rfl
        · next hp =>
          cases hn : Assoc.get? d.schemas name with
          | none => rfl
          | some node =>
            have hdepth := depthBelow_lt hp hn
            dsimp only
            rw [ihNode (path ++ [name]) node (by omega)]

/-- Resolution of a document that was read ends. From this depth on no call is nested deeper: of
schemas by their names, of nodes, and of all schemas, on any path and from any state. -/
theorem resolution_ends {root : Json} (h : Document.ofJson root = .ok d) (beyond : Resolving TypeId)
    (depth : Nat) :
    (∀ path name, depthBelow d path + 1 ≤ depth →
      referenceWithin d beyond depth path name = resolveReference d path name) ∧
    (∀ path id, depthBelow d path + id + 2 ≤ depth →
      nodeWithin d beyond depth path id = resolveNode d path id) ∧
    (depthBelow d [] + 1 ≤ depth → allWithin d beyond depth = all d) := by
  obtain ⟨hnode, hreference⟩ := within_eq (Document.forest_of_ofJson h) beyond depth
  refine ⟨hreference, hnode, fun hdepth => ?_⟩
  unfold allWithin all
  congr 1
  funext p
  rw [hreference [] p.1 hdepth]
  rfl

/-- A schema that has itself as a property and one that is an alias of itself. -/
def selfReferring : Json := .obj [("openapi", .str "3.0.0"), ("components", .obj [("schemas", .obj [
  ("Node", .obj [("type", .str "object"), ("properties", .obj [
    ("next", .obj [("$ref", .str "#/components/schemas/Node")])])]),
  ("Alias", .obj [("$ref", .str "#/components/schemas/Alias")])])])]

theorem resolution_ends_selfReferring :
    ∃ d, Document.ofJson selfReferring = .ok d ∧
      referenceWithin d (throw (.unresolvedReference "")) 9 [] "Node" =
        resolveReference d [] "Node" ∧
      nodeWithin d (throw (.unresolvedReference "")) 11 [] 1 = resolveNode d [] 1 ∧
      allWithin d (throw (.unresolvedReference "")) 9 = all d := by
  have hdepth : (Document.ofJson selfReferring).map (fun d => depthBelow d []) = .ok 8 := by
    decide +kernel
  cases hd : Document.ofJson selfReferring with
  | error e => rw [hd] at hdepth; cases hdepth
  | ok d =>
    rw [hd] at hdepth
    have hbelow : depthBelow d [] = 8 := Except.ok.inj hdepth
    refine ⟨d, rfl, ?_, ?_, ?_⟩
    · exact (resolution_ends hd _ 9).1 [] "Node" (by omega)
    · exact (resolution_ends hd _ 11).2.1 [] 1 (by omega)
    · exact (resolution_ends hd _ 9).2.2 (by omega)

end Resolver

end TypedClient
