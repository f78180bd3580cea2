import TypedClient.Proofs.Resolution.Runs

/-! Coming back to a name. While a call for a node from outside is under way, references may lead to
the name under which the node is declared. The node is resolved again then, and the name is
registered first. When the node stands for a reference, that time the reference is cut and the name
is registered as `any`; otherwise the name has a type that is older than that of the node. -/

namespace TypedClient

open Relation

namespace Resolver

variable {d : Document} {r r' : Resolver} {id : NodeId} {name : String}

theorem resolveKind_of_refers (path : List String) (h : d.Refers id name) :
    resolveKind (site d path) id = resolveReference d path name := by
  have hk : ((site d path).node id).kind = .reference name := h
  unfold resolveKind
  simp only [hk]
  rfl

theorem resolveKind_of_standsFor (path : List String) {c : NodeId} (h : d.StandsFor id c) :
    resolveKind (site d path) id = resolveNode d path c := by
  obtain ⟨how, members, hk, hc⟩ := h
  have hkind : ((site d path).node id).kind = .combination how members := hk
  have hsaying : members.filter (fun m => !isNullOnly ((site d path).node m)) = [c] := hc
  unfold resolveKind
  simp only [hkind]
  unfold resolveCombination
  rw [hsaying]
  rfl

theorem mem_next_of_standsFor {c : NodeId} (h : d.StandsFor id c) : c ∈ d.next id := by
  obtain ⟨how, members, hk, hc⟩ := h
  unfold Document.next Document.kindNodes Document.combinationNodes
  rw [hk]
  dsimp only
  rw [hc]
  exact List.mem_singleton.2 rfl

/-- While a reference to `other` is resolved, the nodes `on` the way to it stand for the reference
in the end: what is made of them meanwhile is `any`, the type of the reference when it is cut. -/
structure Passing (on : NodeId → Prop) (other name : String) (r : Resolver) : Prop where
  pending : Assoc.get? r.registry other = none
  memo : ∀ {y}, on y → ∀ {t}, Assoc.get? r.memo y = some t → t = TypeGraph.any
  registry : ∀ {t}, Assoc.get? r.registry name = some t → t = TypeGraph.any

section Passing

variable {on : NodeId → Prop} {other : String} {root : NodeId} {may : String → Prop}
  (hon : ∀ y, on y → (∃ z, d.StandsFor y z ∧ on z) ∨ d.Refers y other)
  (hn : Assoc.get? d.schemas name = some root) (hroot : on root) (hmay : ¬ may other)

include hon hn hroot hmay

theorem Passing.step (h : Step d may r r') (hp : Passing on other name r) :
    Passing on other name r' := by
  have hpending : Assoc.get? r'.registry other = none := (h.registered hmay).trans hp.pending
  cases h with
  | types h =>
    obtain ⟨hmemo, hregistry, -⟩ := h.same
    exact ⟨hpending, fun hy t ht => hp.memo hy (hmemo ▸ ht),
      fun ht => hp.registry (hregistry ▸ ht)⟩
  | cut cycle _ _ => exact ⟨hpending, hp.memo, hp.registry⟩
  | remember x t hs _ =>
    refine ⟨hpending, fun {y} hy {u} hu => ?_, hp.registry⟩
    rw [Assoc.get?_put] at hu
    split at hu
    · next heq =>
      cases hu
      rw [← heq] at hy
      rcases hon x hy with ⟨z, hz, honz⟩ | hrefers
      · exact hp.memo honz (hs.aliased z hz)
      · rcases hs.reference other hrefers with hreg | hcut
        · rw [hp.pending] at hreg
          cases hreg
        · exact hcut.1
    · exact hp.memo hy hu
  | register nm node t _ hnode _ hm =>
    refine ⟨hpending, hp.memo, fun {u} hu => ?_⟩
    rw [Assoc.get?_put] at hu
    split at hu
    · next heq =>
      cases hu
      rw [heq, hn] at hnode
      cases hnode
      exact hp.memo hroot hm
    · exact hp.registry hu

end Passing

/-- What is registered once the node of a schema has been resolved. -/
theorem registry_of_settle {node : NodeId} {t u : TypeId}
    (h : outcome (settle name node t) r = (.ok u, r')) :
    r'.registry = Assoc.put r.registry name t := by
  obtain ⟨a, r₁, ha, h⟩ := outcome_bind_eq_ok.1 h
  have happly := applyName_cases name node t r
  rw [ha] at happly
  cases h
  show Assoc.put r₁.registry name t = _
  rcases happly with rfl | ⟨parsed, -, rfl⟩
  · rfl
  · rfl

/-- A name that is registered while the reference at the end of its own schema is resolved is
registered as `any`. -/
theorem registered_by_reference (hd : d.Forest) {on : NodeId → Prop} {other : String}
    {root : NodeId} (hon : ∀ y, on y → (∃ z, d.StandsFor y z ∧ on z) ∨ d.Refers y other)
    (hn : Assoc.get? d.schemas name = some root) (hroot : on root)
    (hnone : ∀ y, on y → Assoc.get? r.memo y = none) (hb : r.Bounded) {t u : TypeId}
    (ho : outcome (resolveReference d [] other) r = (.ok u, r'))
    (hnew : Assoc.get? r.registry name = none) (hreg : Assoc.get? r'.registry name = some t) :
    t = TypeGraph.any := by
  rcases outcome_resolveReference d [] other r with
    ⟨w, -, hw⟩ | ⟨hother, ⟨hmem, -⟩ | ⟨-, -, hw⟩ | ⟨node, hmem, hnode, hw⟩⟩
  · rw [hw] at ho
    cases ho
    rw [hnew] at hreg
    cases hreg
  · exact absurd hmem List.not_mem_nil
  · rw [hw] at ho
    cases ho
  · rw [hw] at ho
    obtain ⟨w, r₁, hcall, hrest⟩ := outcome_bind_eq_ok.1 ho
    have hchain : ([] ++ [other]).IsChain d.Follows := List.IsChain.singleton other
    have hspec := resolves_node hd (Document.Route.root List.nodup_nil hchain hmem hnode)
      fun nm hnm => by
        rw [hd.name_unique hnm hnode]
        exact List.mem_singleton.2 rfl
    obtain ⟨hl, hok⟩ := hspec r hb fun nm hnm => by
      rw [hd.name_unique hnm hnode]
      exact hother
    rw [hcall] at hl hok
    have hmay : ¬ ahead d ([] ++ [other]) node other := fun h => h.1 (List.mem_singleton.2 rfl)
    have hstart : Passing on other name r := by
      refine ⟨hother, fun {y} hy {v} hv => ?_, fun {v} hv => ?_⟩
      · rw [hnone y hy] at hv
        cases hv
      · rw [hnew] at hv
        cases hv
    have hend := invariant_of_steps (Passing.step hon hn hroot hmay) hl.steps hstart
    rw [registry_of_settle hrest, Assoc.get?_put] at hreg
    split at hreg
    · next heq =>
      cases hreg
      rw [heq, hn] at hnode
      cases hnode
      exact hend.memo hroot (hok _ rfl)
    · exact hend.registry hreg

/-- A name that is registered while a node is resolved for which the schema of the name stands is
registered as `any`, or with a type older than that of the node. -/
theorem registered_within (hd : d.Forest) {root : NodeId}
    (hn : Assoc.get? d.schemas name = some root) (hb : r.Bounded)
    (hnew : Assoc.get? r.registry name = none) (id : NodeId) (on : NodeId → Prop)
    (hon : ∀ y, on y → Assoc.get? r.memo y = none ∧ ∃ z, d.StandsFor y z ∧ (on z ∨ z = id))
    (hroot : on root ∨ root = id) {r' : Resolver} {t u : TypeId}
    (ho : outcome (node d id) r = (.ok u, r')) (hreg : Assoc.get? r'.registry name = some t) :
    t = TypeGraph.any ∨ t < u := by
  -- Down the nodes that stand for one another: a node is read after the one it stands for.
  induction id using Nat.strong_induction_on generalizing on r' u with
  | _ id ih =>
  rcases outcome_node hd id hb with ⟨w, hm, hw⟩ | ⟨hm, r₁, hl, ⟨e, hw⟩ | ⟨w, hkind, -, horigin, hw⟩⟩
  · rw [hw] at ho
    cases ho
    rw [hnew] at hreg
    cases hreg
  · rw [hw] at ho
    cases ho
  · rw [hw] at ho
    cases ho
    have hon' : ∀ y, on y ∨ y = id → Assoc.get? r.memo y = none := by
      rintro y (hy | rfl)
      · exact (hon y hy).1
      · exact hm
    have href : ∀ other, d.Refers id other → t = TypeGraph.any := by
      intro other hrefers
      rw [resolveKind_of_refers [] hrefers] at hkind
      refine registered_by_reference hd ?_ hn hroot hon' hb hkind hnew hreg
      rintro y (hy | rfl)
      · exact .inl (hon y hy).2
      · exact .inr hrefers
    have hmeets : d.Meets id name := by
      by_contra hno
      rw [registered_of_steps hl.steps hno, hnew] at hreg
      cases hreg
    rcases horigin with hfresh | ⟨other, hrefers⟩ | ⟨c, hc⟩ | hnil
    · exact .inr (hfresh.registry hreg)
    · exact .inl (href other hrefers)
    · rw [resolveKind_of_standsFor [] hc] at hkind
      refine ih c (hd.next_lt (mem_next_of_standsFor hc)) (fun y => on y ∨ y = id) ?_ ?_ hkind hreg
      · rintro y (hy | rfl)
        · obtain ⟨z, hz, honz⟩ := (hon y hy).2
          exact ⟨(hon y hy).1, z, hz, .inl honz⟩
        · exact ⟨hm, c, hc, .inr rfl⟩
      · exact .inl hroot
    · obtain ⟨y, first, hwithin, hrefers, -⟩ := hmeets
      rcases hwithin.cases_head with rfl | ⟨c, hc, -⟩
      · exact .inl (href first hrefers)
      · rw [hnil] at hc
        exact absurd hc List.not_mem_nil

/-- A name that a call for its node registers on its way has the type of the node only when that is
`any`. -/
theorem eq_iff_any (hd : d.Forest) (hn : Assoc.get? d.schemas name = some id) (hb : r.Bounded)
    (hnew : Assoc.get? r.registry name = none) {t u : TypeId}
    (ho : outcome (node d id) r = (.ok u, r')) (hreg : Assoc.get? r'.registry name = some t) :
    t = u ↔ u = TypeGraph.any := by
  have hwithin := registered_within hd hn hb hnew id (fun _ => False) (fun _ h => h.elim)
    (.inr rfl) ho hreg
  constructor
  · rintro rfl
    exact hwithin.resolve_right (Nat.lt_irrefl t)
  · rintro rfl
    exact hwithin.resolve_right (Nat.not_lt_zero t)

end Resolver

end TypedClient
