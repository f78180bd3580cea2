import TypedClient.Proofs.Resolution.Runs
import TypedClient.Proofs.Resolution.Supplies

/-! Calls that give a type keep a faithful state faithful. What is resolved for a node before it
gives the types that its own is made from; then the node gets its type in one step, and the node of
a schema its name as well. -/

namespace TypedClient

namespace TypeGraph

/-- A type that was added last may still be changed, as if it had been added so. -/
theorem set_insert (g : TypeGraph) (t u : TypeInfo) :
    (g.insert t).2.set g.size u = (g.insert u).2 := by
  have hpush : (g.types.push t).setIfInBounds g.types.size u = g.types.push u := by
    grind
  exact congrArg (fun types => (⟨types, g.intrinsics⟩ : TypeGraph)) hpush

theorem get_insert (g : TypeGraph) (t : TypeInfo) : (g.insert t).2.get g.size = t := by
  rw [get, get?_insert, if_pos rfl]
  rfl

end TypeGraph

namespace Resolver

open Relation

variable {α β : Type} {d : Document} {held : NodeId → Prop} {r r' : Resolver} {id : NodeId}
  {t : TypeId}

/-! ### Rules for calls -/

/-- A call that gives a value from a faithful state leaves one, in which the value satisfies
`Q`. -/
def Yields (d : Document) (held : NodeId → Prop) (m : Resolving α) (Q : α → Resolver → Prop) :
    Prop :=
  ∀ ⦃r a r'⦄, Faithful d r → outcome m r = (.ok a, r') →
    Faithful d r' ∧ Grows held r r' ∧ Q a r'

/-- Going on from a site to these nodes gives their types. -/
def Yielding (d : Document) (held : NodeId → Prop) (s : Site Resolving) (nodes : List NodeId) :
    Prop :=
  ∀ c ∈ nodes, Yields d held (s.child c) fun t r => r.Typed c t

theorem Yielding.of_subset {s : Site Resolving} {nodes nodes' : List NodeId}
    (h : Yielding d held s nodes) (hsub : nodes' ⊆ nodes) : Yielding d held s nodes' :=
  fun c hc => h c (hsub hc)

theorem yields_intrinsic (name : String) :
    Yields d held (intrinsic name) fun t r => Assoc.get? r.graph.intrinsics name = some t := by
  intro r t r' hf ho
  cases ho
  have hstep : TypeStep d r { r with graph := (r.graph.intrinsic name).2 } := .intrinsic r name
  have hg : Grows held r { r with graph := (r.graph.intrinsic name).2 } := by
    refine ⟨hstep.size_le, fun {u} hu => ?_, fun {other u} h => ?_, fun h => h, fun h => h,
      fun _ => rfl, List.prefix_refl _, fun _ => rfl⟩
    · show (r.graph.intrinsic name).2.get? u = r.graph.get? u
      unfold TypeGraph.intrinsic
      split
      · rfl
      · exact TypeGraph.get?_insert_of_lt _ hu
    · exact r.graph.intrinsics_intrinsic name h
  have hlooked := r.graph.get?_intrinsic name
  have hadded : ∀ {t}, t < (r.graph.intrinsic name).2.size → t < r.graph.size ∨
      Rooted d { r with graph := (r.graph.intrinsic name).2 } t := by
    intro t ht
    rcases r.graph.intrinsic_cases name with ⟨-, hsame⟩ | ⟨h, hsize, -⟩
    · rw [hsame] at ht
      exact .inl ht
    · rw [hsize] at ht
      rcases Nat.lt_succ_iff_lt_or_eq.1 ht with ht | rfl
      · exact .inl ht
      · exact .inr (.inr (.inl ⟨name, h ▸ hlooked⟩))
  exact ⟨hf.of_grows hg (hstep.bounded hf.bounded) rfl rfl rfl hadded, hg, hlooked⟩

/-! ### The parts of an object -/

section Parts

variable {s : Site Resolving}

theorem keeping_grows (held : NodeId → Prop) : Keeping (Grows held) where
  refl := Grows.refl
  trans := Grows.trans
  memo hg := hg.memo

theorem yields_all {ids : List NodeId} (h : Yielding d held s ids) :
    Yields d held (resolveAll s ids) fun types r => List.Forall₂ r.Typed ids types :=
  supplies_all (keeping_grows held) h

theorem yields_properties {required : List String} {members : List (String × NodeId)}
    (h : Yielding s.document held s (members.map Prod.snd)) :
    Yields s.document held (resolveProperties s required members) fun properties r =>
      List.Forall₂ r.MakesProperty (members.map (s.document.field required)) properties :=
  supplies_properties (keeping_grows held) h

theorem yields_allOf {members : List NodeId}
    (h : Yielding s.document held s (s.document.baseNodes members)) :
    Yields s.document held (resolveAllOf s members) fun merging r =>
      ∃ base, s.document.merging? members = some (base, merging.2) ∧
        Option.Rel r.Typed base merging.1 :=
  supplies_allOf (keeping_grows held) h

theorem yields_definition {hints : TypeHints} {shape : ObjectShape} {start : TypeInfo}
    (hgeneric : hints.isGenericType = true)
    (h : Yielding d held s (Document.genericNodes hints shape)) :
    Yields d held
      (do
        let (t, nameable) ← applyDefinition s hints shape start
        let arguments ← resolveAll s hints.genericArguments
        pure ({ t with genericArguments := arguments }, nameable))
      fun applied r => ∃ generics, Document.genericity? hints shape = some generics ∧
        generics.Makes r start applied.1 applied.2 := by
  unfold Document.genericNodes at h
  rw [if_pos hgeneric] at h
  have harguments := yields_all (h.of_subset (List.subset_append_right _ _))
  unfold Document.genericity?
  rw [if_pos hgeneric]
  intro r applied r' hf ho
  obtain ⟨⟨t, nameable⟩, r₁, hdefinition, ho⟩ := outcome_bind_eq_ok.1 ho
  obtain ⟨types, r₂, hrest, ho⟩ := outcome_bind_eq_ok.1 ho
  cases ho
  unfold applyDefinition at hdefinition
  unfold Document.definitionNodes at h
  split at hdefinition
  · next hdef =>
    cases hdefinition
    obtain ⟨hf₂, hg₂, htypes⟩ := harguments hf hrest
    rw [if_pos hdef]
    exact ⟨hf₂, hg₂, _, rfl, .definition htypes⟩
  · next hdef =>
    rw [if_neg hdef] at h ⊢
    cases hnode : hints.genericTypeDefinition with
    | some node =>
      rw [hnode] at hdefinition
      obtain ⟨u, r₃, hchild, hdefinition⟩ := outcome_bind_eq_ok.1 hdefinition
      cases hdefinition
      obtain ⟨hf₃, hg₃, hu⟩ := h node
        (List.mem_append_left _ (by rw [hnode]; exact List.mem_singleton.2 rfl)) hf hchild
      obtain ⟨hf₂, hg₂, htypes⟩ := harguments hf₃ hrest
      refine ⟨hf₂, hg₃.trans hg₂, .applied node hints.genericArguments, rfl, ?_⟩
      rw [← hg₂.get (hf₃.bounded.memo hu)]
      exact .applied (hg₂.memo hu) htypes
    | none =>
      rw [hnode] at hdefinition
      dsimp only at hdefinition
      split at hdefinition
      · next hadditional =>
        cases hdefinition
        obtain ⟨hf₂, hg₂, htypes⟩ := harguments hf hrest
        exact ⟨hf₂, hg₂, _, if_pos hadditional, .keyed htypes⟩
      · cases hdefinition

theorem yields_generics {hints : TypeHints} {shape : ObjectShape} {start : TypeInfo}
    (h : Yielding d held s (Document.genericNodes hints shape)) :
    Yields d held (applyGenerics s hints shape start) fun applied r =>
      ∃ generics, Document.genericity? hints shape = some generics ∧
        generics.Makes r start applied.1 applied.2 := by
  unfold applyGenerics
  split
  · next hgeneric => exact yields_definition hgeneric h
  · next hgeneric =>
    unfold Document.genericNodes at h
    unfold Document.genericity?
    rw [if_neg hgeneric] at h ⊢
    intro r applied r' hf ho
    split at ho
    · next hadditional =>
      cases ho
      rw [hadditional]
      exact ⟨hf, Grows.refl r, _, rfl, .plain⟩
    · next additional hadditional =>
      rw [hadditional] at h ⊢
      obtain ⟨key, r₁, hkey, ho⟩ := outcome_bind_eq_ok.1 ho
      have hintrinsic : Yields d held _ _ := yields_intrinsic TypeGraph.stringName
      obtain ⟨hf₁, hg₁, hk⟩ := hintrinsic hf hkey
      cases additional with
      | any =>
        cases ho
        exact ⟨hf₁, hg₁, _, rfl, .openRecord hk⟩
      | schema node =>
        obtain ⟨value, r₂, hchild, ho⟩ := outcome_bind_eq_ok.1 ho
        cases ho
        obtain ⟨hf₂, hg₂, hv⟩ := h node (List.mem_singleton.2 rfl) hf₁ hchild
        exact ⟨hf₂, hg₁.trans hg₂, _, rfl, .record (hg₂.intrinsics hk) hv⟩

end Parts

/-! ### Nodes -/

/-- A state with a new type that was made for a node. -/
def adds (r : Resolver) (id : NodeId) (made : TypeInfo) (nameable : Bool) : Resolver :=
  { r with
    graph := (r.graph.insert made).2
    nameable := if nameable then Assoc.put r.nameable r.graph.size id else r.nameable }

/-- What a node comes to: the type of something else, or a new one. -/
inductive Brings (r : Resolver) (id : NodeId) (source : Source) : TypeId → Resolver → Prop
  | passes {t : TypeId} (h : source.Passes r t) : Brings r id source t r
  | makes {made : TypeInfo} {nameable : Bool} (h : source.Makes r made nameable) :
      Brings r id source r.graph.size (r.adds id made nameable)

theorem resolveObject_ok {s : Site Resolving} {schema : SchemaNode} {shape : ObjectShape}
    (h : Yielding s.document held s (s.document.objectNodes schema.hints shape))
    (hf : Faithful s.document r)
    (ho : outcome (resolveObject s id schema shape) r = (.ok t, r')) :
    ∃ plan r₁, s.document.plan? schema shape = some plan ∧ Faithful s.document r₁ ∧
      Grows held r r₁ ∧ Brings r₁ id (.object plan) t r' := by
  have hbases : s.document.baseNodes shape.allOf ⊆ s.document.objectNodes schema.hints shape :=
    List.Subset.trans (List.subset_append_left _ _) (List.subset_append_left _ _)
  have hmembers : Assoc.values (mergeProperties (s.document.mergedShapes shape.allOf ++
      [shape])) ⊆ s.document.objectNodes schema.hints shape :=
    List.Subset.trans (List.subset_append_right _ _) (List.subset_append_left _ _)
  unfold resolveObject at ho
  obtain ⟨⟨base, merged⟩, r₁, hallOf, ho⟩ := outcome_bind_eq_ok.1 ho
  have hmerged := resolveAllOf_merged hallOf
  obtain ⟨hf₁, hg₁, node, hmerging, hb⟩ := yields_allOf (h.of_subset hbases) hf hallOf
  obtain ⟨properties, r₂, hproperties, ho⟩ := outcome_bind_eq_ok.1 ho
  rw [← hmerged] at hmembers
  obtain ⟨hf₂, hg₂, hp⟩ := yields_properties (h.of_subset hmembers) hf₁ hproperties
  obtain ⟨⟨made, nameable⟩, r₃, hgenerics, ho⟩ := outcome_bind_eq_ok.1 ho
  obtain ⟨hf₃, hg₃, generics, hg, hmakes⟩ :=
    yields_generics (h.of_subset (List.subset_append_right _ _)) hf₂ hgenerics
  obtain ⟨type, r₄, hinsert, ho⟩ := outcome_bind_eq_ok.1 ho
  cases hinsert
  let plan : Plan := ⟨Document.objectType schema, node, s.document.fields shape merged, generics⟩
  have hplan : s.document.plan? schema shape = some plan := by
    rw [Document.plan?, hmerging, hg]
  refine ⟨plan, r₃, hplan, hf₃, (hg₁.trans hg₂).trans hg₃, ?_⟩
  have hsource : Source.Makes r₃ (.object plan) { made with fullName := made.name } nameable :=
    .object (typed_option_kept (hg₂.trans hg₃) hb) (properties_kept hg₃ hp) hmakes
  have hbrings : Brings r₃ id (.object plan) _ _ := .makes hsource
  unfold adds at hbrings
  cases nameable with
  | true =>
    obtain ⟨_, r₅, hmark, ho⟩ := outcome_bind_eq_ok.1 ho
    cases hmark
    cases ho
    exact hbrings
  | false =>
    cases ho
    exact hbrings

/-- Resolving a node comes to what the document says of it, from a state in which all that this
takes has been resolved. -/
theorem resolveKind_ok {s : Site Resolving} (h : Yielding s.document held s (s.document.next id))
    (href : ∀ name, s.document.Refers id name →
      Yields s.document held (s.reference name) fun t r =>
        Assoc.get? r.registry name = some t ∨ (t = TypeGraph.any ∧ r.cycles ≠ []))
    (hf : Faithful s.document r) (ho : outcome (resolveKind s id) r = (.ok t, r')) :
    ∃ source r₁, s.document.source? id = some source ∧ Faithful s.document r₁ ∧
      Grows held r r₁ ∧ Brings r₁ id source t r' := by
  unfold Document.next Document.kindNodes at h
  unfold Document.Refers at href
  unfold resolveKind at ho
  simp only [Site.node] at ho
  unfold Document.source?
  dsimp only
  generalize s.document.arena.get id = schema at *
  obtain ⟨kind, description, nullable, hints⟩ := schema
  cases kind with
  | empty =>
    cases ho
    exact ⟨_, r, rfl, hf, Grows.refl r, .passes .any⟩
  | reference name =>
    obtain ⟨hf₁, hg₁, ht⟩ := href name rfl hf ho
    refine ⟨_, r', rfl, hf₁, hg₁, .passes ?_⟩
    rcases ht with ht | ⟨rfl, hc⟩
    · exact .schema ht
    · exact .cut hc
  | object shape =>
    obtain ⟨plan, r₁, hplan, hf₁, hg₁, hbrings⟩ := resolveObject_ok h hf ho
    exact ⟨_, r₁, by dsimp only; rw [hplan]; rfl, hf₁, hg₁, hbrings⟩
  | array items =>
    dsimp only at ho
    unfold resolveArray at ho
    cases items with
    | none =>
      cases ho
      exact ⟨_, r, rfl, hf, Grows.refl r, .makes .openArray⟩
    | some items =>
      obtain ⟨u, r₁, hchild, ho⟩ := outcome_bind_eq_ok.1 ho
      cases ho
      obtain ⟨hf₁, hg₁, hu⟩ := h items (List.mem_singleton.2 rfl) hf hchild
      exact ⟨_, r₁, rfl, hf₁, hg₁, .makes (.array hu)⟩
  | primitive primitive format =>
    have hintrinsic : Yields s.document held _ _ :=
      yields_intrinsic (primitiveName primitive format)
    obtain ⟨hf₁, hg₁, ht⟩ := hintrinsic hf ho
    exact ⟨_, r', rfl, hf₁, hg₁, .passes (.builtin ht)⟩
  | enum primitive literals =>
    cases ho
    exact ⟨_, r, rfl, hf, Grows.refl r, .makes .enum⟩
  | combination how members =>
    dsimp only at ho h ⊢
    unfold Document.combinationNodes at h
    unfold resolveCombination at ho
    unfold Document.sayingMembers at h ⊢
    simp only [Site.node] at ho
    generalize members.filter (fun m => !isNullOnly (s.document.arena.get m)) = saying at *
    rcases saying with _ | ⟨m, _ | ⟨n, ms⟩⟩
    · cases ho
      exact ⟨_, r, rfl, hf, Grows.refl r, .passes .any⟩
    · obtain ⟨hf₁, hg₁, ht⟩ := h m (List.mem_singleton.2 rfl) hf ho
      exact ⟨_, r', rfl, hf₁, hg₁, .passes (.node ht)⟩
    · cases how with
      | allOf =>
        obtain ⟨plan, r₁, hplan, hf₁, hg₁, hbrings⟩ := resolveObject_ok h hf ho
        exact ⟨_, r₁, by dsimp only; rw [hplan]; rfl, hf₁, hg₁, hbrings⟩
      | anyOf => cases ho
      | oneOf => cases ho

/-! ### The type of a node is kept -/

/-- The types, and those that may be named, once a node has come to its type: what was made for the
node stands at the end, under its name. -/
inductive Completes (d : Document) (r : Resolver) (id : NodeId) (source : Source) :
    TypeId → TypeGraph → Assoc TypeId NodeId → Prop
  | passes {t : TypeId} (h : source.Passes r t) : Completes d r id source t r.graph r.nameable
  | makes {made info : TypeInfo} {nameable : Bool} (h : source.Makes r made nameable)
      (hn : d.Titles id nameable made info) :
      Completes d r id source r.graph.size (r.graph.insert info).2
        (if nameable then Assoc.put r.nameable r.graph.size id else r.nameable)

theorem lt_size_of_passes (hb : r.Bounded) {source : Source} (h : source.Passes r t) :
    t < r.graph.size := by
  cases h with
  | any => exact hb.any
  | builtin h => exact hb.intrinsics h
  | schema h => exact hb.registry h
  | cut => exact hb.any
  | node h => exact hb.memo h

theorem rooted_of_passes (hf : Faithful d r) {source : Source} (h : source.Passes r t) :
    Rooted d r t := by
  cases h with
  | any => exact .inl rfl
  | builtin h => exact .inr (.inl ⟨_, h⟩)
  | schema h =>
    obtain ⟨root, -, hr⟩ := hf.declared h
    exact hf.rooted hr
  | cut => exact .inl rfl
  | node h => exact hf.rooted h

section Completes

variable {source : Source} {graph : TypeGraph} {nameable : Assoc TypeId NodeId}

/-- Nothing changes but at the end. -/
theorem Completes.kept (hb : r.Bounded) (h : Completes d r id source t graph nameable) :
    r.graph.size ≤ graph.size ∧ t < graph.size ∧ graph.intrinsics = r.graph.intrinsics ∧
      ∀ u < r.graph.size, graph.get? u = r.graph.get? u ∧
        Assoc.get? nameable u = Assoc.get? r.nameable u := by
  cases h with
  | passes h => exact ⟨Nat.le_refl _, lt_size_of_passes hb h, rfl, fun u _ => ⟨rfl, rfl⟩⟩
  | makes h hn =>
    rw [TypeGraph.size_insert]
    refine ⟨Nat.le_succ _, Nat.lt_succ_self _, rfl, fun u hu => ⟨TypeGraph.get?_insert_of_lt _ hu,
      ?_⟩⟩
    split
    · exact Assoc.get?_put_of_ne (Nat.ne_of_gt hu) ..
    · rfl

/-- A type that was added is the one that the node has come to. -/
theorem Completes.lt_or_eq (h : Completes d r id source t graph nameable) {u : TypeId}
    (hu : u < graph.size) : u < r.graph.size ∨ u = t := by
  cases h with
  | passes h => exact .inl hu
  | makes h hn =>
    rw [TypeGraph.size_insert] at hu
    exact Nat.lt_succ_iff_lt_or_eq.1 hu

theorem Completes.nameable_cases (h : Completes d r id source t graph nameable) {u : TypeId}
    {node : NodeId} (hu : Assoc.get? nameable u = some node) :
    Assoc.get? r.nameable u = some node ∨ (u = t ∧ node = id) := by
  cases h with
  | passes h => exact .inl hu
  | makes h hn =>
    split at hu
    · rw [Assoc.get?_put] at hu
      split at hu
      · next heq =>
        cases hu
        exact .inr ⟨heq.symm, rfl⟩
      · exact .inl hu
    · exact .inl hu

variable (hf : Faithful d r) (hnew : Assoc.get? r.memo id = none)

include hf hnew

/-- With its type, a node that declares a schema registers the name. -/
theorem Completes.faithful (htold : d.source? id = some source)
    (hc : Completes d r id source t r'.graph r'.nameable)
    (hmemo : r'.memo = Assoc.put r.memo id t) (hcycles : r'.cycles = r.cycles)
    (hregistry : ∀ name u, Assoc.get? r'.registry name = some u ↔
      Assoc.get? r.registry name = some u ∨ (Assoc.get? d.schemas name = some id ∧ u = t))
    (hheld : ¬ held id) :
    Faithful d r' ∧ Grows held r r' := by
  obtain ⟨hsize, hlt, hintrinsics, hkept⟩ := hc.kept hf.bounded
  have hmemoKept : ∀ {node u}, r.Typed node u → r'.Typed node u := by
    intro node u h
    have hne : id ≠ node := by
      rintro rfl
      rw [Typed, hnew] at h
      cases h
    rw [Typed, hmemo]
    exact (Assoc.get?_put_of_ne hne ..).trans h
  have hg : Grows held r r' := by
    refine ⟨hsize, fun hu => (hkept _ hu).1, fun h => by rwa [hintrinsics], hmemoKept,
      fun h => (hregistry _ _).2 (.inl h), fun hu => (hkept _ hu).2, hcycles ▸ List.prefix_refl _,
      fun {node} hnode => ?_⟩
    have hne : id ≠ node := fun heq => hheld (heq ▸ hnode)
    rw [hmemo, Assoc.get?_put_of_ne hne]
  have hb : r'.Bounded := by
    refine ⟨Nat.lt_of_lt_of_le hf.bounded.any hsize, fun h => ?_, fun h => ?_, fun h => ?_,
      fun h => ?_⟩
    · rw [hintrinsics] at h
      exact Nat.lt_of_lt_of_le (hf.bounded.intrinsics h) hsize
    · rcases (hregistry _ _).1 h with h | ⟨-, rfl⟩
      · exact Nat.lt_of_lt_of_le (hf.bounded.registry h) hsize
      · exact hlt
    · rw [hmemo, Assoc.get?_put] at h
      split at h
      · cases h
        exact hlt
      · exact Nat.lt_of_lt_of_le (hf.bounded.memo h) hsize
    · rcases hc.nameable_cases h with h | ⟨rfl, -⟩
      · exact Nat.lt_of_lt_of_le (hf.bounded.nameable h) hsize
      · exact hlt
  have htyped : r'.Typed id t := by
    rw [Typed, hmemo]
    exact Assoc.get?_put_self ..
  have hwhole : Comes d r' id t ∧ Rooted d r' t := by
    generalize hgraph : r'.graph = graph at hc
    generalize hnameable : r'.nameable = nameable at hc
    cases hc with
    | passes h =>
      exact ⟨.inl ⟨source, htold, passes_kept hg h⟩, (rooted_of_passes hf h).kept hg hf.bounded⟩
    | @makes made info mayName h hn =>
      have hmade : Made d r' id source made mayName r.graph.size := by
        refine ⟨htold, makes_kept hg hf.bounded h, ⟨info, ?_, hn⟩, ?_⟩
        · rw [hgraph, TypeGraph.get?_insert, if_pos rfl]
        · rw [hnameable]
          split
          · exact Assoc.get?_put_self ..
          · cases hold : Assoc.get? r.nameable r.graph.size with
            | none => rfl
            | some node =>
              exact absurd (hf.bounded.memo (hf.nameable hold)) (Nat.lt_irrefl _)
      exact ⟨.inr ⟨_, _, _, hmade⟩, .inr (.inr ⟨id, _, _, _, htyped, hmade⟩)⟩
  refine ⟨hf.settle hg hb hmemo hnew hwhole.1 hwhole.2 (fun h => (hregistry _ _).1 h)
    (fun hn => (hregistry _ _).2 (.inr ⟨hn, rfl⟩)) (fun h => hc.nameable_cases h)
    fun hu => hc.lt_or_eq hu, hg⟩

end Completes

/-- A node that declares no schema keeps what was made for it as it is. -/
theorem Brings.completes {source : Source} (h : Brings r id source t r') (hid : ¬ d.Declares id) :
    Completes d r id source t r'.graph r'.nameable := by
  cases h with
  | passes h => exact .passes h
  | makes h => exact .makes h (.kept fun _ => hid)

/-- Naming a type changes it when it was made for the node, and nothing otherwise. -/
theorem applyName_ok {name : String} {node : NodeId}
    (ho : outcome (applyName name node t) r = (.ok (), r')) :
    (Assoc.get? r.nameable t = some node ∧ ∃ parsed, TypeName.parse name = .ok parsed ∧
      r' = { r with graph := r.graph.set t ((r.graph.get t).rename parsed) }) ∨
    (Assoc.get? r.nameable t ≠ some node ∧ r' = r) := by
  unfold applyName at ho
  rw [outcome_bind, outcome_get] at ho
  dsimp only at ho
  split at ho
  · next hn =>
    split at ho
    · cases ho
    · next parsed hp =>
      cases ho
      exact .inl ⟨hn, parsed, hp, rfl⟩
  · next hn =>
    cases ho
    exact .inr ⟨hn, rfl⟩

/-- The type of a node that declares a schema takes its name when it was made for the node. -/
theorem Brings.completes_named {source : Source} {name : String} {memo : Assoc NodeId TypeId}
    {r₂ : Resolver} (hf : Faithful d r) (hnew : Assoc.get? r.memo id = none)
    (h : Brings r id source t r') (hn : Assoc.get? d.schemas name = some id)
    (ho : outcome (applyName name id t) { r' with memo } = (.ok (), r₂)) :
    Completes d r id source t r₂.graph r₂.nameable ∧ r₂.memo = memo ∧
      r₂.registry = r'.registry ∧ r₂.cycles = r'.cycles := by
  have hfree : ∀ u, Assoc.get? r.nameable u ≠ some id := by
    intro u hu
    have htyped := hf.nameable hu
    rw [Typed, hnew] at htyped
    cases htyped
  rcases applyName_ok ho with ⟨hnameable, parsed, hp, rfl⟩ | ⟨hnameable, rfl⟩
  · cases h with
    | passes h => exact absurd hnameable (hfree t)
    | @makes made mayName h =>
      cases mayName with
      | false => exact absurd hnameable (hfree _)
      | true =>
        refine ⟨?_, rfl, rfl, rfl⟩
        show Completes d r id source _ (TypeGraph.set (r.graph.insert made).2 r.graph.size
          (((r.graph.insert made).2.get r.graph.size).rename parsed)) _
        rw [TypeGraph.get_insert, TypeGraph.set_insert]
        exact .makes h (.own hn hp)
  · refine ⟨?_, rfl, rfl, rfl⟩
    cases h with
    | passes h => exact .passes h
    | @makes made mayName h =>
      refine .makes h (.kept ?_)
      rintro rfl
      exact absurd (Assoc.get?_put_self ..) hnameable

/-! ### Calls -/

/-- The node stands in the schemas of names on the path only, if in any. -/
def OnPath (d : Document) (path : List String) (id : NodeId) : Prop :=
  ∀ name root, Assoc.get? d.schemas name = some root → ReflTransGen d.Child root id → name ∈ path

/-- The nodes that a call for `id` on the path leaves alone: those that are being resolved. -/
def Held (d : Document) (path : List String) (id x : NodeId) : Prop :=
  OnPath d path x ∧ ¬ ReflTransGen d.Child id x

/-- The nodes that are left alone while all that `id` needs is resolved, itself among them. -/
def Waits (d : Document) (path : List String) (id x : NodeId) : Prop :=
  OnPath d path x ∧ ∀ c ∈ d.next id, ¬ ReflTransGen d.Child c x

section OnPath

variable {path : List String} {c x : NodeId}

theorem Held.waits (h : Held d path id x) : Waits d path id x :=
  ⟨h.1, fun _ hc hreach =>
    h.2 (.trans (Document.Forest.reaches_of_within (.single hc)) hreach)⟩

variable (hd : d.Forest)

include hd

theorem OnPath.child (h : OnPath d path id) (hc : d.Child id c) : OnPath d path c := by
  intro name root hn hreach
  rcases hreach.cases_tail with heq | ⟨x, hreach, hx⟩
  · rw [heq] at hc
    exact absurd hc (hd.root_not_child hn)
  · rw [hd.parent_unique hx hc] at hreach
    exact h name root hn hreach

theorem OnPath.next (h : OnPath d path id) (hc : c ∈ d.next id) : OnPath d path c := by
  rcases Document.child_of_mem_next hc with hc | ⟨m, hm, hc, -⟩
  · exact h.child hd hc
  · exact (h.child hd hm).child hd hc

/-- The node of a schema stands in no other one. -/
theorem OnPath.root {name : String} (hn : Assoc.get? d.schemas name = some id)
    (hname : name ∈ path) : OnPath d path id := by
  intro other root ho hreach
  rw [hd.eq_of_reaches_root hn hreach] at ho
  rwa [hd.name_unique ho hn]

/-- The node of the schema that has been entered last is on the path. -/
theorem OnPath.last {name : String} (hn : Assoc.get? d.schemas name = some id) :
    OnPath d (path ++ [name]) id :=
  OnPath.root hd hn (List.mem_append_right _ (List.mem_singleton.2 rfl))

theorem le_of_reaches (h : ReflTransGen d.Child id x) : x ≤ id := by
  induction h with
  | refl => exact Nat.le_refl _
  | tail _ hc ih => exact Nat.le_trans (Nat.le_of_lt (hd.child_lt hc)) ih

theorem waits_self (hpath : OnPath d path id) : Waits d path id id :=
  ⟨hpath, fun _ hc h => Nat.not_lt_of_le (le_of_reaches hd h) (hd.next_lt hc)⟩

omit hd in
/-- What stands in no schema beyond the path is left alone by the call for another schema. -/
theorem waits_of_onPath {name : String} (hn : Assoc.get? d.schemas name = some id)
    (hname : name ∉ path) (h : OnPath d path x) : Waits d (path ++ [name]) id x :=
  ⟨fun other root ho hreach => List.mem_append_left _ (h other root ho hreach),
    fun _ hc hreach => hname
      (h name id hn (.trans (Document.Forest.reaches_of_within (.single hc)) hreach))⟩

end OnPath

/-- Resolving a node, when the calls for its next nodes and for names yield. -/
theorem resolveKind_yields (hd : d.Forest) {path : List String} (hpath : OnPath d path id)
    (hnode : ∀ c ∈ d.next id, Yields d (Held d path c) (resolveNode d path c)
      fun t r => r.Typed c t)
    (href : ∀ name, d.Refers id name → Yields d (OnPath d path) (resolveReference d path name)
      fun t r => Assoc.get? r.registry name = some t ∨ (t = TypeGraph.any ∧ r.cycles ≠ []))
    (hf : Faithful d r) (hnew : Assoc.get? r.memo id = none)
    (ho : outcome (resolveKind (site d path) id) r = (.ok t, r')) :
    ∃ source r₁, d.source? id = some source ∧ Faithful d r₁ ∧ Grows (Waits d path id) r r₁ ∧
      Assoc.get? r₁.memo id = none ∧ Brings r₁ id source t r' := by
  have hchild : Yielding d (Waits d path id) (site d path) (d.next id) := by
    intro c hc r a r' hf ho
    obtain ⟨hf', hg, ht⟩ := hnode c hc hf ho
    exact ⟨hf', hg.mono fun x hx => ⟨hx.1, hx.2 c hc⟩, ht⟩
  obtain ⟨source, r₁, htold, hf₁, hg₁, hbrings⟩ := resolveKind_ok (s := site d path) hchild
    (fun name hn r a r' hf ho => by
      obtain ⟨hf', hg, ht⟩ := href name hn hf ho
      exact ⟨hf', hg.mono fun x hx => hx.1, ht⟩) hf ho
  exact ⟨source, r₁, htold, hf₁, hg₁, (hg₁.pending (waits_self hd hpath)).trans hnew, hbrings⟩

theorem brings_same {source : Source} (h : Brings r id source t r') :
    r'.memo = r.memo ∧ r'.registry = r.registry ∧ r'.cycles = r.cycles := by
  cases h <;> exact ⟨rfl, rfl, rfl⟩

section Calls

variable (hd : d.Forest) {path : List String}

include hd

/-- A node in a schema, or outside of all, when the calls that it makes yield. -/
theorem yields_inner (hid : ¬ d.Declares id) (hpath : OnPath d path id)
    (hnode : ∀ c ∈ d.next id, Yields d (Held d path c) (resolveNode d path c)
      fun t r => r.Typed c t)
    (href : ∀ name, d.Refers id name → Yields d (OnPath d path) (resolveReference d path name)
      fun t r => Assoc.get? r.registry name = some t ∨ (t = TypeGraph.any ∧ r.cycles ≠ [])) :
    Yields d (Held d path id) (resolveNode d path id) fun t r => r.Typed id t := by
  intro r t r' hf ho
  rcases outcome_resolveNode hd path id r with
    ⟨u, hm, h⟩ | ⟨hm, ⟨e, r₁, -, h⟩ | ⟨u, r₁, hmade, h⟩⟩
  · rw [h] at ho
    cases ho
    exact ⟨hf, Grows.refl r, hm⟩
  · rw [h] at ho
    cases ho
  · rw [h] at ho
    cases ho
    obtain ⟨source, r₂, htold, hf₂, hg₂, hnew, hbrings⟩ :=
      resolveKind_yields hd hpath hnode href hf hm hmade
    obtain ⟨hmemo, hregistry, hcycles⟩ := brings_same hbrings
    have hregistered : ∀ name u, Assoc.get? r₁.registry name = some u ↔
        Assoc.get? r₂.registry name = some u ∨ (Assoc.get? d.schemas name = some id ∧ u = t) := by
      intro name u
      rw [hregistry]
      exact (or_iff_left fun h => hid ⟨name, h.1⟩).symm
    have hheld : ¬ Held d path id id := fun h => h.2 .refl
    have hcompletes : Completes d r₂ id source t r₁.graph r₁.nameable := hbrings.completes hid
    obtain ⟨hf₃, hg₃⟩ : Faithful d { r₁ with memo := Assoc.put r₁.memo id t } ∧
        Grows (Held d path id) r₂ { r₁ with memo := Assoc.put r₁.memo id t } :=
      hcompletes.faithful hf₂ hnew htold (congrArg (Assoc.put · id t) hmemo) hcycles hregistered
        hheld
    exact ⟨hf₃, (hg₂.mono fun x hx => hx.waits).trans hg₃, Assoc.get?_put_self ..⟩

/-- The node that declares a schema, with the name of the schema, when the calls that it makes
yield. -/
theorem yields_root {root : NodeId} {name : String} (hname : name ∉ path)
    (hn : Assoc.get? d.schemas name = some root)
    (hnode : ∀ c ∈ d.next root, Yields d (Held d (path ++ [name]) c)
      (resolveNode d (path ++ [name]) c) fun t r => r.Typed c t)
    (href : ∀ other, d.Refers root other → Yields d (OnPath d (path ++ [name]))
      (resolveReference d (path ++ [name]) other)
      fun t r => Assoc.get? r.registry other = some t ∨ (t = TypeGraph.any ∧ r.cycles ≠ []))
    (hf : Faithful d r) (hreg : Assoc.get? r.registry name = none)
    (ho : outcome (resolveNode d (path ++ [name]) root >>= settle name root) r = (.ok t, r')) :
    Faithful d r' ∧ Grows (OnPath d path) r r' ∧ Assoc.get? r'.registry name = some t := by
  obtain ⟨u, r₁, hcall, hsettle⟩ := outcome_bind_eq_ok.1 ho
  rcases outcome_resolveNode hd (path ++ [name]) root r with
    ⟨u', hm, h⟩ | ⟨hm, ⟨e, r₂, -, h⟩ | ⟨u', r₂, hmade, h⟩⟩
  · have hregistered := hf.registered hn hm
    rw [hreg] at hregistered
    cases hregistered
  · rw [h] at hcall
    cases hcall
  · rw [h] at hcall
    cases hcall
    have hroot : OnPath d (path ++ [name]) root :=
      OnPath.root hd hn (List.mem_append_right _ (List.mem_singleton.2 rfl))
    obtain ⟨source, r₃, htold, hf₃, hg₃, hnew, hbrings⟩ :=
      resolveKind_yields hd hroot hnode href hf hm hmade
    obtain ⟨hmemo, hregistry, hcycles⟩ := brings_same hbrings
    obtain ⟨_, r₄, happly, hsettle⟩ := outcome_bind_eq_ok.1 hsettle
    cases hsettle
    obtain ⟨hcompletes, hmemo₄, hregistry₄, hcycles₄⟩ :=
      hbrings.completes_named hf₃ hnew hn happly
    have hregistered : ∀ other u, Assoc.get? (Assoc.put r₄.registry name t) other = some u ↔
        Assoc.get? r₃.registry other = some u ∨
          (Assoc.get? d.schemas other = some root ∧ u = t) := by
      intro other u
      have hunregistered : Assoc.get? r₃.registry name = none := by
        cases hold : Assoc.get? r₃.registry name with
        | none => rfl
        | some v =>
          obtain ⟨node, hnode, htyped⟩ := hf₃.declared hold
          rw [hn] at hnode
          cases hnode
          rw [Typed, hnew] at htyped
          cases htyped
      rw [hregistry₄, hregistry, Assoc.get?_put]
      split
      · next heq =>
        rw [← heq, hunregistered]
        simp only [hn, Option.some.injEq, reduceCtorEq, false_or, true_and]
        exact eq_comm
      · next hne =>
        exact (or_iff_left fun h => hne (hd.name_unique hn h.1)).symm
    have hheld : ¬ OnPath d path root := fun h => hname (h name root hn .refl)
    obtain ⟨hf₅, hg₅⟩ : Faithful d { r₄ with registry := Assoc.put r₄.registry name t } ∧
        Grows (OnPath d path) r₃ { r₄ with registry := Assoc.put r₄.registry name t } :=
      hcompletes.faithful hf₃ hnew htold
        (hmemo₄.trans (congrArg (Assoc.put · root t) hmemo)) (hcycles₄.trans hcycles) hregistered
        hheld
    exact ⟨hf₅, (hg₃.mono fun x hx => waits_of_onPath hn hname hx).trans hg₅,
      Assoc.get?_put_self ..⟩

end Calls

mutual

theorem yields_node (hd : d.Forest) {path : List String} {id : NodeId} (hid : ¬ d.Declares id)
    (hpath : OnPath d path id) :
    Yields d (Held d path id) (resolveNode d path id) fun t r => r.Typed id t :=
  yields_inner hd hid hpath
    (fun c hc => yields_node hd (hd.not_declares_of_mem_next hc) (hpath.next hd hc))
    fun name _ => yields_reference hd path name
termination_by depthBelow d path + id + 1
decreasing_by
  · have := hd.next_lt hc
    simp only [NodeId] at *
    omega
  · omega

theorem yields_reference (hd : d.Forest) (path : List String) (name : String) :
    Yields d (OnPath d path) (resolveReference d path name) fun t r =>
      Assoc.get? r.registry name = some t ∨ (t = TypeGraph.any ∧ r.cycles ≠ []) := by
  intro r t r' hf ho
  rcases outcome_resolveReference d path name r with
    ⟨u, hreg, h⟩ | ⟨hreg, ⟨-, h⟩ | ⟨-, -, h⟩ | ⟨root, hname, hn, h⟩⟩
  · rw [h] at ho
    cases ho
    exact ⟨hf, Grows.refl r, .inl hreg⟩
  · rw [h] at ho
    cases ho
    have hg : Grows (OnPath d path) r { r with
        cycles := r.cycles ++ [path.dropWhile (· != name) ++ [name]] } :=
      { Grows.refl r with cycles := List.prefix_append _ _ }
    have hb : Bounded { r with
        cycles := r.cycles ++ [path.dropWhile (· != name) ++ [name]] } :=
      ⟨hf.bounded.any, hf.bounded.intrinsics, hf.bounded.registry, hf.bounded.memo,
        hf.bounded.nameable⟩
    exact ⟨hf.of_grows hg hb rfl rfl rfl .inl, hg, .inr ⟨rfl,
      List.append_ne_nil_of_right_ne_nil _ (List.cons_ne_nil _ _)⟩⟩
  · rw [h] at ho
    cases ho
  · have hdepth : depthBelow d (path ++ [name]) + root + 1 < depthBelow d path :=
      depthBelow_lt (by simpa using hname) hn
    have hroot : OnPath d (path ++ [name]) root :=
      OnPath.root hd hn (List.mem_append_right _ (List.mem_singleton.2 rfl))
    rw [h] at ho
    obtain ⟨hf', hg, ht⟩ := yields_root hd hname hn
      (fun c hc => yields_node hd (hd.not_declares_of_mem_next hc)
        (hroot.next hd hc))
      (fun other _ => yields_reference hd (path ++ [name]) other) hf hreg ho
    exact ⟨hf', hg, .inl ht⟩
termination_by depthBelow d path
decreasing_by
  · have := hd.next_lt hc
    simp only [NodeId] at *
    omega
  · omega

end

end Resolver

end TypedClient
