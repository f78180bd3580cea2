import TypedClient.Proofs.Resolution.Walk

/-! Resolving a node depends on how its next nodes are resolved only. These are older than the node
in every document that was read, so the guard that keeps resolution from going to younger nodes
never acts there. -/

namespace TypedClient

namespace Resolver

/-! ### Sites that go on alike -/

section Congruence

variable {s : Site Resolving} {child : NodeId → Resolving TypeId}

theorem resolveArray_with {schema : SchemaNode} {items : Option NodeId}
    (h : ∀ c ∈ items.toList, child c = s.child c) :
    resolveArray { s with child } schema items = resolveArray s schema items := by
  cases items with
  | none => rfl
  | some c =>
    unfold resolveArray
    dsimp only
    rw [h c (List.mem_singleton.2 rfl)]

theorem sortMembers_with (members : List NodeId) :
    sortMembers { s with child } members = sortMembers s members := by
  induction members with
  | nil => rfl
  | cons m ms ih =>
    rw [sortMembers, sortMembers, ih]
    rfl

theorem resolveAllOf_with {members : List NodeId}
    (h : ∀ c ∈ s.document.baseNodes members, child c = s.child c) :
    resolveAllOf { s with child } members = resolveAllOf s members := by
  match members with
  | [] => rfl
  | [m] =>
    unfold resolveAllOf
    dsimp only
    rw [h m (List.mem_singleton.2 rfl)]
  | m :: n :: ms =>
    unfold resolveAllOf
    dsimp only
    rw [sortMembers_with]
    split
    · rfl
    · rfl
    · next base plain hs =>
      have hbase : base ∈ s.document.baseNodes (m :: n :: ms) := by
        rw [Document.baseNodes_cons_cons, ← (sortMembers_ok hs).1]
        exact List.mem_singleton.2 rfl
      rw [h base hbase]
    · rfl

theorem resolveProperties_with {required : List String} {properties : List (String × NodeId)}
    (h : ∀ c ∈ properties.map Prod.snd, child c = s.child c) :
    resolveProperties { s with child } required properties =
      resolveProperties s required properties := by
  induction properties with
  | nil => rfl
  | cons p rest ih =>
    obtain ⟨name, c⟩ := p
    rw [resolveProperties, resolveProperties, ih fun c hc => h c (List.mem_cons_of_mem _ hc)]
    dsimp only
    rw [h c List.mem_cons_self]
    rfl

theorem resolveAll_with {ids : List NodeId} (h : ∀ c ∈ ids, child c = s.child c) :
    resolveAll { s with child } ids = resolveAll s ids := by
  induction ids with
  | nil => rfl
  | cons c rest ih =>
    rw [resolveAll, resolveAll, ih fun c hc => h c (List.mem_cons_of_mem _ hc)]
    dsimp only
    rw [h c List.mem_cons_self]

theorem applyGenerics_with {hints : TypeHints} {shape : ObjectShape} {t : TypeInfo}
    (h : ∀ c ∈ Document.genericNodes hints shape, child c = s.child c) :
    applyGenerics { s with child } hints shape t = applyGenerics s hints shape t := by
  unfold Document.genericNodes Document.definitionNodes at h
  unfold applyGenerics
  split
  · next hgeneric =>
    rw [if_pos hgeneric] at h
    rw [resolveAll_with fun c hc => h c (List.mem_append_right _ hc)]
    congr 1
    unfold applyDefinition
    split
    · rfl
    · next hdefinition =>
      rw [if_neg hdefinition] at h
      split
      · next c hc =>
        dsimp only
        rw [h c (List.mem_append_left _ (by rw [hc]; exact List.mem_singleton.2 rfl))]
      · rfl
  · next hgeneric =>
    rw [if_neg hgeneric] at h
    split
    · rfl
    · next additional ha =>
      cases additional with
      | any => rfl
      | schema c =>
        rw [ha] at h
        dsimp only
        rw [h c (List.mem_singleton.2 rfl)]

theorem resolveObject_with {id : NodeId} {schema : SchemaNode} {shape : ObjectShape}
    (h : ∀ c ∈ s.document.objectNodes schema.hints shape, child c = s.child c) :
    resolveObject { s with child } id schema shape = resolveObject s id schema shape := by
  unfold Document.objectNodes at h
  unfold resolveObject
  rw [resolveAllOf_with fun c hc =>
    h c (List.mem_append_left _ (List.mem_append_left _ hc))]
  refine bind_congr_of_outcome fun r merging t hm => ?_
  obtain ⟨base, merged⟩ := merging
  rw [← resolveAllOf_merged hm] at h
  dsimp only
  rw [resolveProperties_with fun c hc =>
    h c (List.mem_append_left _ (List.mem_append_right _ hc))]
  simp only [applyGenerics_with fun c hc => h c (List.mem_append_right _ hc)]

theorem resolveCombination_with {id : NodeId} {schema : SchemaNode} {how : Combination}
    {members : List NodeId}
    (h : ∀ c ∈ s.document.combinationNodes schema.hints how members, child c = s.child c) :
    resolveCombination { s with child } id schema how members =
      resolveCombination s id schema how members := by
  unfold Document.combinationNodes Document.sayingMembers at h
  unfold resolveCombination
  simp only [Site.node]
  generalize members.filter (fun m => !isNullOnly (s.document.arena.get m)) = saying at h ⊢
  rcases saying with _ | ⟨m, _ | ⟨n, ms⟩⟩
  · rfl
  · exact h m (List.mem_singleton.2 rfl)
  · cases how with
    | allOf => exact resolveObject_with h
    | anyOf => rfl
    | oneOf => rfl

/-- Resolving a node depends on how its next nodes are resolved only. -/
theorem resolveKind_with {id : NodeId} (h : ∀ c ∈ s.document.next id, child c = s.child c) :
    resolveKind { s with child } id = resolveKind s id := by
  unfold Document.next Document.kindNodes at h
  unfold resolveKind
  simp only [Site.node]
  split
  · rfl
  · rfl
  · next shape hk =>
    rw [hk] at h
    exact resolveObject_with h
  · next items hk =>
    rw [hk] at h
    exact resolveArray_with h
  · rfl
  · rfl
  · next how members hk =>
    rw [hk] at h
    exact resolveCombination_with h

end Congruence

/-! ### Nodes -/

/-- Where a node is resolved on a path, without a guard. -/
def site (d : Document) (path : List String) : Site Resolving :=
  ⟨d, path, resolveNode d path, resolveReference d path⟩

theorem resolveNode_eq {d : Document} (hd : d.Forest) (path : List String) (id : NodeId) :
    resolveNode d path id = (do
      match Assoc.get? (← get).memo id with
      | some type => pure type
      | none =>
        let type ← resolveKind (site d path) id
        remember id type
        pure type) := by
  rw [resolveNode]
  refine bind_congr fun r => ?_
  cases Assoc.get? r.memo id with
  | some type => rfl
  | none =>
    dsimp only
    congr 1
    refine resolveKind_with (s := site d path) fun c hc => ?_
    have hlt : c < id := hd.next_lt hc
    show (if c < id then _ else _) = _
    rw [if_pos hlt]
    rfl

/-! ### What the calls do -/

variable {d : Document}

/-- A node has been resolved before, or it is resolved and, unless that fails, kept. -/
theorem outcome_resolveNode (hd : d.Forest) (path : List String) (id : NodeId) (r : Resolver) :
    (∃ t, Assoc.get? r.memo id = some t ∧ outcome (resolveNode d path id) r = (.ok t, r)) ∨
    (Assoc.get? r.memo id = none ∧
      ((∃ e r', outcome (resolveKind (site d path) id) r = (.error e, r') ∧
          outcome (resolveNode d path id) r = (.error e, r')) ∨
        ∃ t r', outcome (resolveKind (site d path) id) r = (.ok t, r') ∧
          outcome (resolveNode d path id) r =
            (.ok t, { r' with memo := Assoc.put r'.memo id t }))) := by
  rw [resolveNode_eq hd, outcome_bind, outcome_get]
  dsimp only
  cases hm : Assoc.get? r.memo id with
  | some t => exact .inl ⟨t, rfl, rfl⟩
  | none =>
    refine .inr ⟨rfl, ?_⟩
    dsimp only
    rw [outcome_bind]
    rcases outcome (resolveKind (site d path) id) r with ⟨e | t, r'⟩
    · exact .inl ⟨e, r', rfl, rfl⟩
    · exact .inr ⟨t, r', rfl, rfl⟩

/-- What is done with the type of a schema once its node has been resolved. -/
def settle (name : String) (node : NodeId) (t : TypeId) : Resolving TypeId := do
  applyName name node t
  register name t
  pure t

/-- A named schema is registered, or cut, or it does not exist, or its node is resolved with the
name on the path. -/
theorem outcome_resolveReference (d : Document) (path : List String) (name : String)
    (r : Resolver) :
    (∃ t, Assoc.get? r.registry name = some t ∧
      outcome (resolveReference d path name) r = (.ok t, r)) ∨
    (Assoc.get? r.registry name = none ∧
      ((name ∈ path ∧ outcome (resolveReference d path name) r = (.ok TypeGraph.any,
          { r with cycles := r.cycles ++ [path.dropWhile (· != name) ++ [name]] })) ∨
        (name ∉ path ∧ Assoc.get? d.schemas name = none ∧
          outcome (resolveReference d path name) r = (.error (.unresolvedReference name), r)) ∨
        ∃ node, name ∉ path ∧ Assoc.get? d.schemas name = some node ∧
          outcome (resolveReference d path name) r =
            outcome (resolveNode d (path ++ [name]) node >>= settle name node) r)) := by
  rw [resolveReference_eq, outcome_bind, outcome_get]
  dsimp only
  cases hreg : Assoc.get? r.registry name with
  | some t => exact .inl ⟨t, rfl, rfl⟩
  | none =>
    refine .inr ⟨rfl, ?_⟩
    dsimp only
    split
    · next hname =>
      have hmem : name ∈ path := by simpa using hname
      exact .inl ⟨hmem, rfl⟩
    · next hname =>
      have hmem : name ∉ path := by simpa using hname
      cases hn : Assoc.get? d.schemas name with
      | none => exact .inr (.inl ⟨hmem, rfl, rfl⟩)
      | some node => exact .inr (.inr ⟨node, hmem, rfl, rfl⟩)

end Resolver

end TypedClient
