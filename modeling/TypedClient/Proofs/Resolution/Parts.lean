import TypedClient.Proofs.Resolution.Calls

/-! Resolving the parts of a schema. Given calls that resolve the next nodes of a node, its type is
made from theirs: all of the next nodes have been resolved when it is there, and it is the type of
another node, one that is built in, or a new one. -/

namespace TypedClient

/-- Whether a node of this kind has a type of its own. -/
def SchemaKind.standsAlone : SchemaKind → Bool
  | .reference _ | .combination .. => false
  | _ => true

namespace Resolver

variable {d : Document} {may : String → Prop} {s : Site Resolving}

/-- Going on from a site to these nodes, which declare no schemas, resolves them. -/
def Reaches (d : Document) (may : String → Prop) (s : Site Resolving) (nodes : List NodeId) : Prop :=
  ∀ c ∈ nodes, ¬ d.Declares c ∧
    Resolves d may (fun _ => True) (s.child c) fun t r => Assoc.get? r.memo c = some t

theorem Reaches.of_subset {nodes nodes' : List NodeId} (h : Reaches d may s nodes)
    (hsub : nodes' ⊆ nodes) : Reaches d may s nodes' :=
  fun c hc => h c (hsub hc)

/-- The next node is resolved beside what has been reached before. -/
theorem Reaches.child {nodes : List NodeId} (h : Reaches d may s nodes) {c : NodeId}
    (hc : c ∈ nodes) (before : List NodeId) (types : List TypeId) :
    Resolves d may (fun r => Reached d r before types) (s.child c)
      fun t r => Reached d r (before ++ [c]) (types ++ [t]) :=
  ((h c hc).2.frame (F := fun r => Reached d r before types) Reached.kept).weaken
    (fun _ hr => ⟨hr, trivial⟩) fun _ _ _ hr => hr.1.append (Reached.single (h c hc).1 hr.2)

theorem resolves_array (id : NodeId) {schema : SchemaNode} {items : Option NodeId}
    (h : Reaches d may s items.toList) :
    Resolves d may (fun _ => True) (resolveArray s schema items)
      fun t r => Reached d r items.toList [] ∧ FreshFor r id t := by
  unfold resolveArray
  refine Resolves.bind (Q := fun element r => Reached d r items.toList [element]) ?_
    fun element => ?_
  · cases items with
    | none => exact Resolves.pure fun r _ _ => (Reached.nil d r).add_type .any
    | some c =>
      exact (h.child (List.mem_singleton.2 rfl) [] []).weaken (fun r _ => Reached.nil d r)
        fun t r _ hr => hr
  · refine (resolves_typeInfo element).bind fun info => ?_
    refine ((resolves_insertType _ id).frame (F := fun r => Reached d r items.toList [element])
      Reached.kept).weaken (fun r hr => ⟨hr, fun u hu => ?_⟩) fun t r _ hr =>
        ⟨hr.1.of_subset (List.Subset.refl _) (List.nil_subset _), hr.2⟩
    have hmem : u ∈ [element] := hu
    exact hr.given u hmem

theorem resolves_enum (id : NodeId) (schema : SchemaNode) (primitive : Primitive)
    (literals : List Json) :
    Resolves d may (fun _ => True) (resolveEnum id schema primitive literals)
      fun t r => FreshFor r id t := by
  unfold resolveEnum
  refine ((resolves_insertType _ id).weaken (fun r _ u hu => absurd hu List.not_mem_nil)
    fun _ _ _ h => h).bind fun t => ?_
  exact (resolves_markNameable t id).bind fun _ => Resolves.pure fun _ _ h => h

theorem resolves_allOf {members : List NodeId}
    (h : Reaches d may s (s.document.baseNodes members)) :
    Resolves d may (fun _ => True) (resolveAllOf s members) fun merging r =>
      Reached d r (s.document.baseNodes members) merging.1.toList ∧
        merging.2 = s.document.mergedShapes members := by
  suffices hs : Resolves d may (fun _ => True) (resolveAllOf s members) fun merging r =>
      Reached d r (s.document.baseNodes members) merging.1.toList from by
    intro r hb hp
    obtain ⟨hl, ha⟩ := hs r hb hp
    exact ⟨hl, fun merging hok => ⟨ha merging hok, resolveAllOf_merged (Prod.ext hok rfl)⟩⟩
  match members with
  | [] => exact Resolves.pure fun r _ _ => Reached.nil d r
  | [m] =>
    refine ((h.child (List.mem_singleton.2 rfl) [] []).weaken (fun r _ => Reached.nil d r)
      fun _ _ _ hr => hr).bind fun t => Resolves.pure fun r _ hr => hr
  | m :: n :: ms =>
    unfold resolveAllOf
    dsimp only
    split
    · exact Resolves.throw _
    · next plain hs =>
      rw [Document.baseNodes_cons_cons, ← (sortMembers_ok hs).1]
      exact Resolves.pure fun r _ _ => Reached.nil d r
    · next base plain hs =>
      rw [Document.baseNodes_cons_cons, ← (sortMembers_ok hs).1] at h ⊢
      refine ((h.child (List.mem_singleton.2 rfl) [] []).weaken (fun r _ => Reached.nil d r)
        fun _ _ _ hr => hr).bind fun t => Resolves.pure fun r _ hr => hr
    · exact Resolves.throw _

theorem resolves_all_nodes {ids : List NodeId} (h : Reaches d may s ids) (before : List NodeId)
    (types : List TypeId) :
    Resolves d may (fun r => Reached d r before types) (resolveAll s ids)
      fun arguments r => Reached d r (before ++ ids) (types ++ arguments) := by
  induction ids generalizing before types with
  | nil =>
    refine Resolves.pure fun r _ hr => ?_
    rwa [List.append_nil, List.append_nil]
  | cons c rest ih =>
    rw [resolveAll]
    refine (h.child List.mem_cons_self before types).bind fun t => ?_
    refine (ih (h.of_subset (List.subset_cons_self c rest)) _ _).bind fun arguments =>
      Resolves.pure fun r _ hr => ?_
    rwa [List.append_assoc, List.append_assoc] at hr

theorem resolves_properties {required : List String} {properties : List (String × NodeId)}
    (h : Reaches d may s (properties.map Prod.snd)) (before : List NodeId) (types : List TypeId) :
    Resolves d may (fun r => Reached d r before types) (resolveProperties s required properties)
      fun made r => Reached d r (before ++ properties.map Prod.snd)
        (types ++ made.map fun p => p.2.type) := by
  induction properties generalizing before types with
  | nil =>
    refine Resolves.pure fun r _ hr => ?_
    rwa [List.map_nil, List.map_nil, List.append_nil, List.append_nil]
  | cons p rest ih =>
    obtain ⟨name, c⟩ := p
    rw [resolveProperties]
    refine (h.child List.mem_cons_self before types).bind fun t => ?_
    refine (ih (h.of_subset (List.subset_cons_self c _)) _ _).bind fun made =>
      Resolves.pure fun r _ hr => ?_
    rwa [List.append_assoc, List.append_assoc] at hr

theorem references_withDefinition (t : TypeInfo) (name : String) (isBuiltin : Bool)
    (definition : TypeId) :
    { t with name, isBuiltin, genericDefinition := some definition }.references ⊆
      t.references ++ [definition] := by
  intro u hu
  simp only [TypeInfo.references, List.mem_append, Option.toList_some] at hu ⊢
  tauto

theorem references_withArguments (t : TypeInfo) (arguments : List TypeId) :
    { t with genericArguments := arguments }.references ⊆ t.references ++ arguments := by
  intro u hu
  simp only [TypeInfo.references, List.mem_append] at hu ⊢
  tauto

theorem resolves_definition {hints : TypeHints} {shape : ObjectShape} {t : TypeInfo}
    (h : Reaches d may s (Document.definitionNodes hints)) (before : List NodeId) :
    Resolves d may (fun r => Reached d r before t.references) (applyDefinition s hints shape t)
      fun applied r =>
        Reached d r (before ++ Document.definitionNodes hints) applied.1.references := by
  unfold applyDefinition
  unfold Document.definitionNodes at h ⊢
  split
  · exact Resolves.pure fun r _ hr => (List.append_nil before).symm ▸ hr
  · next hdefinition =>
    rw [if_neg hdefinition] at h
    split
    · next node hnode =>
      rw [hnode] at h ⊢
      refine (h.child (List.mem_singleton.2 rfl) before t.references).bind fun definition => ?_
      refine (resolves_typeInfo definition).bind fun info => Resolves.pure fun r _ hr => ?_
      exact hr.of_subset (List.Subset.refl _) (references_withDefinition t _ _ definition)
    · next hnode =>
      rw [hnode]
      split
      · exact Resolves.pure fun r _ hr => (List.append_nil before).symm ▸ hr
      · exact Resolves.throw _

theorem resolves_generics {hints : TypeHints} {shape : ObjectShape} {t : TypeInfo}
    (h : Reaches d may s (Document.genericNodes hints shape)) (before : List NodeId) :
    Resolves d may (fun r => Reached d r before t.references) (applyGenerics s hints shape t)
      fun applied r =>
        Reached d r (before ++ Document.genericNodes hints shape) applied.1.references := by
  unfold applyGenerics
  unfold Document.genericNodes at h ⊢
  split
  · next hgeneric =>
    rw [if_pos hgeneric] at h
    refine (resolves_definition (h.of_subset (List.subset_append_left _ _)) before).bind
      fun applied => ?_
    obtain ⟨t', nameable⟩ := applied
    refine (resolves_all_nodes (h.of_subset (List.subset_append_right _ _)) _ _).bind
      fun arguments => Resolves.pure fun r _ hr => ?_
    rw [← List.append_assoc]
    exact hr.of_subset (List.Subset.refl _) (references_withArguments t' arguments)
  · next hgeneric =>
    rw [if_neg hgeneric] at h
    split
    · next hadditional =>
      rw [hadditional]
      exact Resolves.pure fun r _ hr => (List.append_nil before).symm ▸ hr
    · next additional hadditional =>
      rw [hadditional] at h ⊢
      refine Resolves.bind (Q := fun key r => Reached d r before (t.references ++ [key])) ?_
        fun key => ?_
      · exact ((resolves_intrinsic _).frame (F := fun r => Reached d r before t.references)
          Reached.kept).weaken (fun r hr => ⟨hr, trivial⟩) fun key r _ hr =>
            hr.1.add_type (.intrinsic hr.2)
      cases additional with
      | any =>
        refine Resolves.bind (Resolves.pure (Q := fun value r =>
          Reached d r before (t.references ++ [key] ++ [value])) fun r _ hr =>
            hr.add_type (hr.given key (List.mem_append_right _ (List.mem_singleton.2 rfl))))
          fun value => Resolves.pure fun r _ hr => ?_
        rw [List.append_nil]
        rw [List.append_assoc] at hr
        exact hr.of_subset (List.Subset.refl _) (references_withArguments t [key, value])
      | schema node =>
        refine (h.child (List.mem_singleton.2 rfl) before _).bind fun value =>
          Resolves.pure fun r _ hr => ?_
        rw [List.append_assoc] at hr
        exact hr.of_subset (List.Subset.refl _) (references_withArguments t [key, value])

theorem resolves_object {id : NodeId} {schema : SchemaNode} {shape : ObjectShape}
    (h : Reaches d may s (s.document.objectNodes schema.hints shape)) :
    Resolves d may (fun _ => True) (resolveObject s id schema shape) fun t r =>
      Reached d r (s.document.objectNodes schema.hints shape) [] ∧ FreshFor r id t := by
  have hbases : s.document.baseNodes shape.allOf ⊆
      s.document.objectNodes schema.hints shape :=
    List.Subset.trans (List.subset_append_left _ _) (List.subset_append_left _ _)
  have hproperties : Assoc.values (mergeProperties (s.document.mergedShapes shape.allOf ++
      [shape])) ⊆ s.document.objectNodes schema.hints shape :=
    List.Subset.trans (List.subset_append_right _ _) (List.subset_append_left _ _)
  unfold resolveObject
  refine (resolves_allOf (h.of_subset hbases)).bind fun merging => ?_
  obtain ⟨base, merged⟩ := merging
  dsimp only
  refine Resolves.of_fact ?_
  rintro rfl
  refine (resolves_properties (h.of_subset hproperties) _ _).bind fun properties => ?_
  refine Resolves.bind (Q := fun applied r => Reached d r
    (s.document.objectNodes schema.hints shape) applied.1.references) ?_ fun applied => ?_
  · refine (resolves_generics (h.of_subset (List.subset_append_right _ _)) _).weaken
      (fun r hr => hr.of_subset (List.Subset.refl _) fun u hu => ?_) fun _ _ _ hr => hr
    simpa [TypeInfo.references, TypeInfo.builtin, TypeInfo.named] using hu
  obtain ⟨t, nameable⟩ := applied
  dsimp only
  refine Resolves.bind (Q := fun type r =>
    Reached d r (s.document.objectNodes schema.hints shape) [] ∧ FreshFor r id type) ?_
      fun type => ?_
  · refine ((resolves_insertType _ id).frame Reached.kept).weaken (fun r hr => ⟨hr, hr.given⟩)
      fun type r _ hr => ⟨hr.1.of_subset (List.Subset.refl _) (List.nil_subset _), hr.2⟩
  · split
    · exact ((resolves_markNameable type id).frame Reached.kept).map _
    · exact Resolves.pure fun r _ hr => hr

/-- The type of a combination of which these members say something and these nodes are next: that
of the only such member, or else a new type, or a built-in one when there is nothing to resolve. -/
def Combined (d : Document) (r : Resolver) (id : NodeId) (saying nodes : List NodeId)
    (t : TypeId) : Prop :=
  (∃ c, saying = [c] ∧ Assoc.get? r.memo c = some t ∧ Given d r t) ∨
    (∀ c, saying ≠ [c]) ∧ (nodes = [] ∧ Given d r t ∨ FreshFor r id t)

theorem Combined.given {r : Resolver} {id : NodeId} {saying nodes : List NodeId} {t : TypeId}
    (h : Combined d r id saying nodes t) : Given d r t ∨ FreshFor r id t := by
  rcases h with ⟨_, -, -, hgiven⟩ | ⟨-, ⟨-, hgiven⟩ | hfresh⟩
  · exact .inl hgiven
  · exact .inl hgiven
  · exact .inr hfresh

theorem resolves_combination {id : NodeId} {schema : SchemaNode} {how : Combination}
    {members : List NodeId}
    (h : Reaches d may s (s.document.combinationNodes schema.hints how members)) :
    Resolves d may (fun _ => True) (resolveCombination s id schema how members) fun t r =>
      Reached d r (s.document.combinationNodes schema.hints how members) [] ∧
        Combined d r id (s.document.sayingMembers members)
          (s.document.combinationNodes schema.hints how members) t := by
  unfold Document.combinationNodes Document.sayingMembers at *
  unfold resolveCombination
  simp only [Site.node]
  generalize members.filter (fun m => !isNullOnly (s.document.arena.get m)) = saying at h ⊢
  rcases saying with _ | ⟨m, _ | ⟨n, ms⟩⟩
  · exact Resolves.pure fun r hb _ =>
      ⟨Reached.nil d r, .inr ⟨fun c hc => (by cases hc), .inl ⟨rfl, .any⟩⟩⟩
  · obtain ⟨hm, hcall⟩ := h m (List.mem_singleton.2 rfl)
    exact hcall.weaken (fun _ h => h) fun t r hb hmemo =>
      ⟨(Reached.single hm hmemo).of_subset (List.Subset.refl _) (List.nil_subset _),
        .inl ⟨m, rfl, hmemo, .inner hm hmemo⟩⟩
  · cases how with
    | allOf =>
      exact (resolves_object h).weaken (fun _ h => h) fun t r _ hr =>
        ⟨hr.1, .inr ⟨fun c hc => (by cases hc), .inr hr.2⟩⟩
    | anyOf => exact Resolves.throw _
    | oneOf => exact Resolves.throw _

/-! ### Nodes -/

/-- Where the type of a node comes from: it is new, or it is that of another schema or node, or
nothing had to be resolved for it. -/
def Origin (d : Document) (r : Resolver) (id : NodeId) (t : TypeId) : Prop :=
  Fresh r t ∨ (∃ name, d.Refers id name) ∨ (∃ c, d.StandsFor id c) ∨ d.next id = []

/-- A node that has a type of its own is settled when its next nodes have been resolved. -/
theorem Reached.settled {r : Resolver} {id : NodeId} {t : TypeId}
    (hr : Reached d r (d.next id) []) (hb : r.Bounded) (ht : Given d r t ∨ FreshFor r id t)
    (halone : (d.arena.get id).kind.standsAlone) : Settled d r id t where
  next := hr.memo
  reference name h := by
    rw [h] at halone
    cases halone
  aliased c h := by
    obtain ⟨how, members, hk, -⟩ := h
    rw [hk] at halone
    cases halone
  bound := ht.elim (fun h => h.bound hb) fun h => h.bound
  origin := ht.imp_right fun h => .inr h.own

/-- A reference is settled when the schema it names is registered, or its cycle is cut. -/
theorem settled_reference {r : Resolver} {id : NodeId} {t : TypeId} {name : String}
    (hk : d.Refers id name) (hbound : t < r.graph.size)
    (ht : Assoc.get? r.registry name = some t ∨ (t = TypeGraph.any ∧ r.cycles ≠ [] ∧
      ∃ owner, d.InSchema owner id ∧ Relation.ReflTransGen d.Follows name owner)) :
    Settled d r id t where
  next := by
    unfold Document.next
    rw [hk]
    exact fun c hc => absurd hc List.not_mem_nil
  reference name' hname' := by
    rw [Document.Refers, hk] at hname'
    cases hname'
    exact ht
  aliased c h := by
    obtain ⟨how, members, hk', -⟩ := h
    rw [hk] at hk'
    cases hk'
  bound := hbound
  origin := by
    rcases ht with hregistered | ⟨rfl, -⟩
    · exact .inr (.inl ⟨name, hregistered⟩)
    · exact .inl .any

theorem settled_combination {r : Resolver} {id : NodeId} {t : TypeId} {how : Combination}
    {members : List NodeId} (hk : (d.arena.get id).kind = .combination how members)
    (hb : r.Bounded) (hr : Reached d r (d.next id) [])
    (h : Combined d r id (d.sayingMembers members) (d.next id) t) :
    Settled d r id t where
  next := hr.memo
  reference name hname := by
    rw [Document.Refers, hk] at hname
    cases hname
  aliased c hc := by
    obtain ⟨how', members', hk', hc⟩ := hc
    rw [hk] at hk'
    cases hk'
    rcases h with ⟨c', hc', hmemo, -⟩ | ⟨hnone, -⟩
    · rw [hc] at hc'
      cases hc'
      exact hmemo
    · exact absurd hc (hnone c)
  bound := h.given.elim (fun h => h.bound hb) fun h => h.bound
  origin := h.given.imp_right fun h => .inr h.own

theorem origin_combination {r : Resolver} {id : NodeId} {t : TypeId} {how : Combination}
    {members : List NodeId} (hk : (d.arena.get id).kind = .combination how members)
    (h : Combined d r id (d.sayingMembers members) (d.next id) t) : Origin d r id t := by
  rcases h with ⟨c, hc, -⟩ | ⟨-, ⟨hnil, -⟩ | hfresh⟩
  · exact .inr (.inr (.inl ⟨c, how, members, hk, hc⟩))
  · exact .inr (.inr (.inr hnil))
  · exact .inl hfresh.toFresh

theorem resolves_kind {id : NodeId} (hs : s.document = d) (h : Reaches d may s (d.next id))
    (href : ∀ name, d.Refers id name →
      Resolves d may (fun _ => True) (s.reference name) fun t r => t < r.graph.size ∧
        (Assoc.get? r.registry name = some t ∨ (t = TypeGraph.any ∧ r.cycles ≠ [] ∧
          ∃ owner, d.InSchema owner id ∧ Relation.ReflTransGen d.Follows name owner))) :
    Resolves d may (fun _ => True) (resolveKind s id) fun t r =>
      Settled d r id t ∧ Origin d r id t := by
  subst hs
  have hnext : ∀ {kind}, (s.document.arena.get id).kind = kind →
      s.document.next id = s.document.kindNodes (s.document.arena.get id).hints kind := by
    rintro _ rfl
    rfl
  have hsettled : ∀ {kind r t}, (s.document.arena.get id).kind = kind → kind.standsAlone →
      r.Bounded → Reached s.document r
        (s.document.kindNodes (s.document.arena.get id).hints kind) [] →
      Given s.document r t ∨ FreshFor r id t → Settled s.document r id t := by
    rintro _ r t rfl halone hb hr ht
    exact hr.settled hb ht halone
  unfold resolveKind
  simp only [Site.node]
  split
  · next hk =>
    exact Resolves.pure fun r hb _ =>
      ⟨hsettled hk rfl hb (Reached.nil _ r) (.inl .any), .inr (.inr (.inr (hnext hk)))⟩
  · next name hk =>
    exact (href name hk).weaken (fun _ h => h) fun t r _ hr =>
      ⟨settled_reference hk hr.1 hr.2, .inr (.inl ⟨name, hk⟩)⟩
  · next shape hk =>
    rw [hnext hk] at h
    exact (resolves_object h).weaken (fun _ h => h) fun t r hb hr =>
      ⟨hsettled hk rfl hb hr.1 (.inr hr.2), .inl hr.2.toFresh⟩
  · next items hk =>
    rw [hnext hk] at h
    exact (resolves_array id h).weaken (fun _ h => h) fun t r hb hr =>
      ⟨hsettled hk rfl hb hr.1 (.inr hr.2), .inl hr.2.toFresh⟩
  · next primitive format hk =>
    exact (resolves_intrinsic _).weaken (fun _ h => h) fun t r hb hr =>
      ⟨hsettled hk rfl hb (Reached.nil _ r) (.inl (.intrinsic hr)),
        .inr (.inr (.inr (hnext hk)))⟩
  · next primitive literals hk =>
    exact (resolves_enum id _ primitive literals).weaken (fun _ h => h) fun t r hb hr =>
      ⟨hsettled hk rfl hb (Reached.nil _ r) (.inr hr), .inl hr.toFresh⟩
  · next how members hk =>
    rw [hnext hk] at h
    have hnodes : s.document.next id = s.document.combinationNodes
        (s.document.arena.get id).hints how members := hnext hk
    refine (resolves_combination h).weaken (fun _ h => h) fun t r hb hr => ?_
    rw [← hnodes] at hr
    exact ⟨settled_combination hk hb hr.1 hr.2, origin_combination hk hr.2⟩

end Resolver

end TypedClient
