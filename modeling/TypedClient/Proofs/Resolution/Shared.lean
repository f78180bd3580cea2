import TypedClient.Proofs.Resolution.Unguarded

/-! Documents that share their named schemas. Resolving a schema reads the nodes that stand in it, and
goes on to other schemas by their names; so two documents whose arenas begin with the same nodes,
the schemas among them, resolve these alike, whatever comes after. -/

namespace TypedClient

/-- The documents have the same named schemas, with the same nodes, which come first. -/
structure Document.Shares (d d' : Document) (bound : NodeId) : Prop where
  schemas : d'.schemas = d.schemas
  node : ∀ {id}, id < bound → d'.arena.get id = d.arena.get id
  root : ∀ {name id}, Assoc.get? d.schemas name = some id → id < bound

namespace Resolver

/-! ### Sites of another document -/

section Congruence

variable {s : Site Resolving} {d' : Document}

theorem sortMembers_over {members : List NodeId}
    (h : ∀ m ∈ members, d'.arena.get m = s.document.arena.get m) :
    sortMembers { s with document := d' } members = sortMembers s members := by
  induction members with
  | nil => rfl
  | cons m ms ih =>
    rw [List.forall_mem_cons] at h
    rw [sortMembers, sortMembers, ih h.2, Site.node, Site.node]
    dsimp only
    rw [h.1]

theorem resolveAllOf_over {members : List NodeId}
    (h : ∀ m ∈ members, d'.arena.get m = s.document.arena.get m) :
    resolveAllOf { s with document := d' } members = resolveAllOf s members := by
  match members with
  | [] | [m] => rfl
  | m :: n :: ms =>
    unfold resolveAllOf
    dsimp only
    rw [sortMembers_over h]
    rfl

theorem resolveProperties_over {required : List String} {properties : List (String × NodeId)}
    (h : ∀ c ∈ properties.map Prod.snd, d'.arena.get c = s.document.arena.get c) :
    resolveProperties { s with document := d' } required properties =
      resolveProperties s required properties := by
  induction properties with
  | nil => rfl
  | cons p rest ih =>
    obtain ⟨name, c⟩ := p
    rw [List.map_cons, List.forall_mem_cons] at h
    rw [resolveProperties, resolveProperties, ih h.2, Site.node, Site.node]
    dsimp only
    rw [h.1]

theorem resolveAll_over (ids : List NodeId) :
    resolveAll { s with document := d' } ids = resolveAll s ids := by
  induction ids with
  | nil => rfl
  | cons c rest ih => rw [resolveAll, resolveAll, ih]

theorem applyGenerics_over (hints : TypeHints) (shape : ObjectShape) (t : TypeInfo) :
    applyGenerics { s with document := d' } hints shape t = applyGenerics s hints shape t := by
  unfold applyGenerics
  rw [resolveAll_over]
  rfl

/-- An object reads the members of its `allOf`, and what stands for its properties. -/
theorem resolveObject_over {id : NodeId} {schema : SchemaNode} {shape : ObjectShape}
    (hmembers : ∀ m ∈ shape.allOf, d'.arena.get m = s.document.arena.get m)
    (h : ∀ c ∈ s.document.objectNodes schema.hints shape,
      d'.arena.get c = s.document.arena.get c) :
    resolveObject { s with document := d' } id schema shape = resolveObject s id schema shape := by
  unfold Document.objectNodes at h
  unfold resolveObject
  rw [resolveAllOf_over hmembers]
  refine bind_congr_of_outcome fun r merging t hm => ?_
  obtain ⟨base, merged⟩ := merging
  rw [← resolveAllOf_merged hm] at h
  dsimp only
  rw [resolveProperties_over fun c hc =>
    h c (List.mem_append_left _ (List.mem_append_right _ hc))]
  simp only [applyGenerics_over]

theorem resolveCombination_over {id : NodeId} {schema : SchemaNode} {how : Combination}
    {members : List NodeId} (hmembers : ∀ m ∈ members, d'.arena.get m = s.document.arena.get m)
    (h : ∀ c ∈ s.document.combinationNodes schema.hints how members,
      d'.arena.get c = s.document.arena.get c) :
    resolveCombination { s with document := d' } id schema how members =
      resolveCombination s id schema how members := by
  have hsaying : members.filter (fun m => !isNullOnly (d'.arena.get m)) =
      members.filter (fun m => !isNullOnly (s.document.arena.get m)) :=
    List.filter_congr fun m hm => by rw [hmembers m hm]
  have hkept : ∀ m ∈ members.filter (fun m => !isNullOnly (s.document.arena.get m)),
      d'.arena.get m = s.document.arena.get m :=
    fun m hm => hmembers m (List.mem_of_mem_filter hm)
  unfold Document.combinationNodes Document.sayingMembers at h
  unfold resolveCombination
  simp only [Site.node, hsaying]
  generalize members.filter (fun m => !isNullOnly (s.document.arena.get m)) = saying at h hkept ⊢
  rcases saying with _ | ⟨m, _ | ⟨n, ms⟩⟩
  · rfl
  · rfl
  · cases how with
    | allOf => exact resolveObject_over hkept h
    | anyOf => rfl
    | oneOf => rfl

/-- Resolving a node reads what stands in it. -/
theorem resolveKind_over {bound id : NodeId} (hd : s.document.Forest)
    (h : ∀ {c}, c < bound → d'.arena.get c = s.document.arena.get c) (hid : id < bound) :
    resolveKind { s with document := d' } id = resolveKind s id := by
  have hnext : ∀ c ∈ s.document.next id, d'.arena.get c = s.document.arena.get c :=
    fun c hc => h (Nat.lt_trans (hd.next_lt hc) hid)
  have hchild : ∀ m ∈ (s.document.arena.get id).kind.children,
      d'.arena.get m = s.document.arena.get m :=
    fun m hm => h (Nat.lt_trans (hd.child_lt (List.mem_append_right _ hm)) hid)
  unfold Document.next Document.kindNodes at hnext
  unfold resolveKind
  simp only [Site.node]
  rw [h hid]
  split
  · rfl
  · rfl
  · next shape hk =>
    rw [hk] at hnext hchild
    exact resolveObject_over (fun m hm => hchild m (List.mem_append_left _
      (List.mem_append_right _ hm))) hnext
  · rfl
  · rfl
  · rfl
  · next how members hk =>
    rw [hk] at hnext hchild
    exact resolveCombination_over hchild hnext

end Congruence

/-! ### Nodes and names -/

variable {d d' : Document} {bound : NodeId}

/-- Both kinds of calls agree: the nodes that a node leads to are older, and a name that joins the
path takes one off the names that may. -/
theorem resolves_shared (hd : d.Forest) (hd' : d'.Forest) (hs : d.Shares d' bound) (depth : Nat) :
    (∀ path id, id < bound → depthBelow d path + id + 2 ≤ depth →
      resolveNode d' path id = resolveNode d path id) ∧
    (∀ path name, depthBelow d path + 1 ≤ depth →
      resolveReference d' path name = resolveReference d path name) := by
  induction depth with
  | zero => exact ⟨fun path id _ h => absurd h (by omega), fun path name h => absurd h (by omega)⟩
  | succ depth ih =>
    obtain ⟨ihNode, ihReference⟩ := ih
    constructor
    · intro path id hid h
      have href : resolveReference d' path = resolveReference d path :=
        funext fun name => ihReference path name (by omega)
      have hkind : resolveKind (site d' path) id = resolveKind (site d path) id := by
        have hover := resolveKind_over (s := site d path) hd (fun hc => hs.node hc) hid
        have hwith : resolveKind { site d' path with child := resolveNode d path } id =
            resolveKind (site d' path) id := by
          refine resolveKind_with fun c hc => ?_
          have hlt : c < id := hd'.next_lt hc
          refine (ihNode path c (Nat.lt_trans hlt hid) ?_).symm
          simp only [NodeId] at hlt h ⊢
          omega
        rw [← hwith, ← hover, site, href]
        rfl
      rw [resolveNode_eq hd', resolveNode_eq hd, hkind]
    · intro path name h
      rw [resolveReference_eq, resolveReference_eq, hs.schemas]
      refine bind_congr fun r => ?_
      cases Assoc.get? r.registry name with
      | some type => rfl
      | none =>
        dsimp only
        split
        · rfl
        · next hp =>
          cases hn : Assoc.get? d.schemas name with
          | none => rfl
          | some node =>
            have hdepth := depthBelow_lt hp hn
            dsimp only
            rw [ihNode (path ++ [name]) node (hs.root hn) (by omega)]

/-- All named schemas are resolved alike. -/
theorem all_shared (hd : d.Forest) (hd' : d'.Forest) (hs : d.Shares d' bound) :
    all d' = all d := by
  unfold all named
  rw [hs.schemas, funext fun name =>
    (resolves_shared hd hd' hs (depthBelow d [] + 1)).2 [] name (Nat.le_refl _)]

/-! ### Other operations -/

theorem shares_withOperations (operations : List Operation) (id : NodeId) :
    d.Shares { d with operations } (max (id + 1) (rootBound d)) :=
  ⟨rfl, fun _ => rfl, fun hn => Nat.lt_of_lt_of_le (lt_rootBound hn) (Nat.le_max_right _ _)⟩

section Operations

variable (hd : d.Forest) (operations : List Operation)

include hd

theorem forest_withOperations : { d with operations }.Forest :=
  ⟨hd.child_lt, hd.parent_unique, hd.root_lt, hd.root_not_child, hd.name_unique⟩

/-- Operations are not read when types are resolved. -/
theorem node_withOperations : node { d with operations } = node d := by
  funext id
  refine (resolves_shared hd (forest_withOperations hd operations)
    (shares_withOperations operations id) _).1 [] id ?_ (Nat.le_refl _)
  exact Nat.lt_of_lt_of_le (Nat.lt_succ_self id) (Nat.le_max_left _ _)

theorem all_withOperations : all { d with operations } = all d :=
  all_shared hd (forest_withOperations hd operations) (shares_withOperations operations 0)

end Operations

end Resolver

end TypedClient
