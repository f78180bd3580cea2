import TypedClient.Proofs.Resolution.Runs

/-! The cycles that resolution records are cycles of schemas, and it records some when there are
any. What a step keeps says so: a node that has been resolved has all of its next nodes resolved, a
reference has the type of its schema unless it was cut, and as long as nothing was cut the
references from a registered schema come to an end. -/

namespace TypedClient

open Relation

namespace Resolver

/-- What holds of every state of a resolver. -/
structure Sound (d : Document) (r : Resolver) : Prop where
  next : ∀ {id t}, Assoc.get? r.memo id = some t → ∀ c ∈ d.next id, (Assoc.get? r.memo c).isSome
  reference : ∀ {id t name}, Assoc.get? r.memo id = some t → d.Refers id name →
    Assoc.get? r.registry name = some t ∨ (t = TypeGraph.any ∧ r.cycles ≠ [] ∧
      ∃ owner, d.InSchema owner id ∧ ReflTransGen d.Follows name owner)
  root : ∀ {name t}, Assoc.get? r.registry name = some t →
    ∃ node, Assoc.get? d.schemas name = some node ∧ (Assoc.get? r.memo node).isSome
  cycles : ∀ cycle ∈ r.cycles, IsCycle d cycle
  acyclic : r.cycles = [] → ∀ {name t}, Assoc.get? r.registry name = some t →
    Acc (fun other name => d.Follows name other) name

namespace Sound

variable {d : Document} {may : String → Prop} {r r' : Resolver}

theorem initial (d : Document) : Sound d {} where
  next h := by cases h
  reference h := by cases h
  root h := by cases h
  cycles cycle h := absurd h List.not_mem_nil
  acyclic _ _ _ h := by cases h

/-- With a node, all nodes that resolving it goes to have been resolved. -/
theorem within (hs : Sound d r) {id node : NodeId} (h : (Assoc.get? r.memo id).isSome)
    (hw : d.Within id node) : (Assoc.get? r.memo node).isSome := by
  induction hw with
  | refl => exact h
  | tail _ hc ih =>
    obtain ⟨t, ht⟩ := Option.isSome_iff_exists.1 ih
    exact hs.next ht _ hc

/-- Without a cut, what a schema follows has been registered once its node has been resolved. -/
theorem registered_of_follows (hs : Sound d r) (hcycles : r.cycles = []) {name other : String}
    {node : NodeId} (hn : Assoc.get? d.schemas name = some node)
    (hm : (Assoc.get? r.memo node).isSome) (hf : d.Follows name other) :
    ∃ t, Assoc.get? r.registry other = some t := by
  obtain ⟨id, ⟨root, hr, hw⟩, hrefers⟩ := hf
  rw [hn] at hr
  cases hr
  obtain ⟨t, ht⟩ := Option.isSome_iff_exists.1 (hs.within hm hw)
  rcases hs.reference ht hrefers with h | h
  · exact ⟨t, h⟩
  · exact absurd hcycles h.2.1

theorem step (h : Step d may r r') (hs : Sound d r) : Sound d r' := by
  have he := h.extends
  cases h with
  | types h =>
    obtain ⟨hmemo, hregistry, hcycles⟩ := h.same
    constructor
    · rw [hmemo]; exact hs.next
    · rw [hmemo, hregistry, hcycles]; exact hs.reference
    · rw [hmemo, hregistry]; exact hs.root
    · rw [hcycles]; exact hs.cycles
    · rw [hcycles, hregistry]; exact hs.acyclic
  | cut cycle hcycle _ =>
    have hne : r.cycles ++ [cycle] ≠ [] :=
      List.append_ne_nil_of_right_ne_nil _ (List.cons_ne_nil _ _)
    refine ⟨hs.next, fun ht hn => ?_, hs.root, fun other ho => ?_, fun hnil => absurd hnil hne⟩
    · exact (hs.reference ht hn).imp_right fun h => ⟨h.1, hne, h.2.2⟩
    · rcases List.mem_append.1 ho with ho | ho
      · exact hs.cycles other ho
      · rw [List.mem_singleton.1 ho]
        exact hcycle
  | remember id t hsettled _ =>
    refine ⟨fun {id' t'} ht c hc => ?_, fun {id' t' name} ht hn => ?_, fun ht => ?_, hs.cycles,
      hs.acyclic⟩
    · rw [Assoc.get?_put] at ht
      split at ht
      · next heq =>
        rw [← heq] at hc
        exact he.memo (hsettled.next c hc)
      · exact he.memo (hs.next ht c hc)
    · rw [Assoc.get?_put] at ht
      split at ht
      · next heq =>
        cases ht
        rw [← heq] at hn ⊢
        exact hsettled.reference name hn
      · exact hs.reference ht hn
    · obtain ⟨node, hn, hm⟩ := hs.root ht
      exact ⟨node, hn, he.memo hm⟩
  | register name node t _ hnode _ hm =>
    refine ⟨hs.next, fun ht hn => (hs.reference ht hn).imp_left he.registry,
      fun {name' t'} ht => ?_, hs.cycles, fun hcycles name' t' ht => ?_⟩
    · rw [Assoc.get?_put] at ht
      split at ht
      · next heq =>
        rw [← heq]
        exact ⟨node, hnode, by rw [hm]; rfl⟩
      · exact hs.root ht
    · rw [Assoc.get?_put] at ht
      split at ht
      · next heq =>
        rw [← heq]
        refine Acc.intro name fun other hf => ?_
        obtain ⟨u, hu⟩ := hs.registered_of_follows hcycles hnode (by rw [hm]; rfl) hf
        exact hs.acyclic hcycles hu
      · exact hs.acyclic hcycles ht

end Sound

/-! ### All schemas -/

variable {d : Document}

theorem IsCycle.follows {cycle : List String} (h : IsCycle d cycle) :
    ∃ name, TransGen d.Follows name name := by
  obtain ⟨name, path, rfl, -, hchain⟩ := h
  refine ⟨name, ?_⟩
  cases path with
  | nil => exact .single (List.isChain_cons_cons.1 hchain).1
  | cons next rest =>
    obtain ⟨hf, hrest⟩ := List.isChain_cons_cons.1 hchain
    refine .head' hf (List.relationReflTransGen_of_exists_isChain_cons _ hrest ?_)
    show ((next :: rest) ++ [name]).getLast _ = name
    exact List.getLast_concat

/-- Where references come to an end there is no cycle. -/
theorem not_follows_self {name : String} (h : Acc (fun other name => d.Follows name other) name) :
    ¬ TransGen d.Follows name name := by
  induction h with
  | intro name _ ih =>
    intro hcycle
    obtain ⟨other, hf, hback⟩ := TransGen.head'_iff.1 hcycle
    exact ih other hf (.tail' hback hf)

/-- Resolving all schemas of a document that was read, from the start, records cycles of schemas
only, and records one when there is any. A reference that lies on no cycle of schemas has the type
that its schema is registered with: the reference from `name` to `other` lies on one when `other`
leads back to `name`. -/
theorem cycles_exact {root : Json} {r : Resolver} (h : Document.ofJson root = .ok d)
    (hr : outcome (all d) {} = (.ok (), r)) :
    (∀ cycle ∈ r.cycles, IsCycle d cycle) ∧
    (r.cycles ≠ [] ↔ ∃ name, TransGen d.Follows name name) ∧
    ∀ name id other, d.InSchema name id → d.Refers id other →
      ¬ ReflTransGen d.Follows other name →
      ∃ t, Assoc.get? r.memo id = some t ∧ Assoc.get? r.registry other = some t := by
  have hd := Document.forest_of_ofJson h
  obtain ⟨hl, hregistered⟩ := resolves_all hd {} bounded_initial trivial
  rw [hr] at hl hregistered
  have hs : Sound d r := invariant_of_steps Sound.step hl.steps (Sound.initial d)
  have hall : ∀ {name id}, d.InSchema name id → ∃ t, Assoc.get? r.registry name = some t := by
    rintro name id ⟨node, hn, -⟩
    exact Option.isSome_iff_exists.1 (hregistered () rfl _ (Assoc.mem_of_get? hn))
  refine ⟨hs.cycles, ⟨fun hne => ?_, ?_⟩, fun name id other hin hrefers hback => ?_⟩
  · obtain ⟨cycle, hc⟩ := List.exists_mem_of_ne_nil _ hne
    exact (hs.cycles cycle hc).follows
  · rintro ⟨name, hcycle⟩ hnil
    obtain ⟨other, ⟨id, hin, -⟩, -⟩ := TransGen.head'_iff.1 hcycle
    obtain ⟨t, ht⟩ := hall hin
    exact not_follows_self (hs.acyclic hnil ht) hcycle
  · obtain ⟨t, ht⟩ := hall hin
    obtain ⟨node, hn, hm⟩ := hs.root ht
    obtain ⟨root, hroot, hw⟩ := hin
    rw [hn] at hroot
    cases hroot
    obtain ⟨u, hu⟩ := Option.isSome_iff_exists.1 (hs.within hm hw)
    refine ⟨u, hu, (hs.reference hu hrefers).resolve_right ?_⟩
    rintro ⟨-, -, owner, ho, hlead⟩
    rw [hd.inSchema_unique ho ⟨node, hn, hw⟩] at hlead
    exact hback hlead

/-- A schema that is a property of itself, and one that has it as a property without being one of
its own. -/
def heldLoop : Json := .obj [("openapi", .str "3.0.0"), ("components", .obj [("schemas", .obj [
  ("Holder", .obj [("type", .str "object"), ("properties", .obj [
    ("node", .obj [("$ref", .str "#/components/schemas/Node")])])]),
  ("Node", .obj [("type", .str "object"), ("properties", .obj [
    ("next", .obj [("$ref", .str "#/components/schemas/Node")])])])])])]

theorem cycles_exact_heldLoop :
    ∃ d r, Document.ofJson heldLoop = .ok d ∧ outcome (all d) {} = (.ok (), r) ∧
      r.cycles = [["Node", "Node"]] ∧ (∀ cycle ∈ r.cycles, IsCycle d cycle) ∧
      ∃ name, TransGen d.Follows name name := by
  have hrun : ((Document.ofJson heldLoop).map fun d =>
      ((outcome (all d) {}).1, (outcome (all d) {}).2.cycles)) =
      .ok (.ok (), [["Node", "Node"]]) := by
    decide +kernel
  cases hd : Document.ofJson heldLoop with
  | error e => rw [hd] at hrun; cases hrun
  | ok d =>
    rw [hd] at hrun
    obtain ⟨hok, hcycles⟩ := Prod.mk.inj (Except.ok.inj hrun)
    have h := cycles_exact hd (Prod.ext hok rfl)
    refine ⟨d, _, rfl, Prod.ext hok rfl, hcycles, h.1, h.2.1.1 ?_⟩
    rw [hcycles]
    exact List.cons_ne_nil _ _

end Resolver

end TypedClient
