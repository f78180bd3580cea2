import TypedClient.Proofs.Resolution.Source

/-! Calls that give values. What each of them keeps of the state is a relation that carries over
from call to call, and along it a node that has a type keeps that type. So the types of the nodes
that an object is made of are all there once its last part has been resolved. -/

namespace TypedClient

namespace Resolver

variable {α : Type} {I : Resolver → Prop} {G : Resolver → Resolver → Prop}

/-- A relation to later states, in which every node keeps its type. -/
structure Keeping (G : Resolver → Resolver → Prop) : Prop where
  refl : ∀ r, G r r
  trans : ∀ {r r' r''}, G r r' → G r' r'' → G r r''
  memo : ∀ {r r' id t}, G r r' → r.Typed id t → r'.Typed id t

/-- A call that gives a value from a state of this kind leaves one of them, in which the value
satisfies `Q`. -/
def Supplies (I : Resolver → Prop) (G : Resolver → Resolver → Prop) (m : Resolving α)
    (Q : α → Resolver → Prop) : Prop :=
  ∀ ⦃r a r'⦄, I r → outcome m r = (.ok a, r') → I r' ∧ G r r' ∧ Q a r'

/-- Going on from a site to these nodes gives their types. -/
def Supplying (I : Resolver → Prop) (G : Resolver → Resolver → Prop) (s : Site Resolving)
    (nodes : List NodeId) : Prop :=
  ∀ c ∈ nodes, Supplies I G (s.child c) fun t r => r.Typed c t

theorem Supplying.of_subset {s : Site Resolving} {nodes nodes' : List NodeId}
    (h : Supplying I G s nodes) (hsub : nodes' ⊆ nodes) : Supplying I G s nodes' :=
  fun c hc => h c (hsub hc)

section Parts

variable {s : Site Resolving} (hG : Keeping G)

include hG

theorem supplies_all {ids : List NodeId} (h : Supplying I G s ids) :
    Supplies I G (resolveAll s ids) fun types r => List.Forall₂ r.Typed ids types := by
  induction ids with
  | nil =>
    intro r types r' hI ho
    cases ho
    exact ⟨hI, hG.refl r, .nil⟩
  | cons c rest ih =>
    intro r types r' hI ho
    rw [resolveAll] at ho
    obtain ⟨t, r₁, hchild, ho⟩ := outcome_bind_eq_ok.1 ho
    obtain ⟨types', r₂, hrest, ho⟩ := outcome_bind_eq_ok.1 ho
    cases ho
    obtain ⟨hI₁, hG₁, ht⟩ := h c List.mem_cons_self hI hchild
    obtain ⟨hI₂, hG₂, htypes⟩ := ih (h.of_subset (List.subset_cons_self c rest)) hI₁ hrest
    exact ⟨hI₂, hG.trans hG₁ hG₂, .cons (hG.memo hG₂ ht) htypes⟩

theorem supplies_properties {required : List String} {members : List (String × NodeId)}
    (h : Supplying I G s (members.map Prod.snd)) :
    Supplies I G (resolveProperties s required members) fun properties r =>
      List.Forall₂ r.MakesProperty (members.map (s.document.field required)) properties := by
  induction members with
  | nil =>
    intro r properties r' hI ho
    cases ho
    exact ⟨hI, hG.refl r, .nil⟩
  | cons p rest ih =>
    intro r properties r' hI ho
    rw [resolveProperties] at ho
    obtain ⟨t, r₁, hchild, ho⟩ := outcome_bind_eq_ok.1 ho
    obtain ⟨properties', r₂, hrest, ho⟩ := outcome_bind_eq_ok.1 ho
    cases ho
    obtain ⟨hI₁, hG₁, ht⟩ := h p.2 List.mem_cons_self hI hchild
    obtain ⟨hI₂, hG₂, hproperties⟩ := ih (h.of_subset (List.subset_cons_self p.2 _)) hI₁ hrest
    exact ⟨hI₂, hG.trans hG₁ hG₂, .cons ⟨t, hG.memo hG₂ ht, rfl⟩ hproperties⟩

omit hG in
/-- Sorting the members of an `allOf` depends on the document only. -/
theorem sortMembers_site (s : Site Resolving) (members : List NodeId) :
    sortMembers s members = sortMembers (site s.document []) members := by
  induction members with
  | nil => rfl
  | cons m ms ih =>
    rw [sortMembers, sortMembers, ih]
    rfl

theorem supplies_allOf {members : List NodeId}
    (h : Supplying I G s (s.document.baseNodes members)) :
    Supplies I G (resolveAllOf s members) fun merging r =>
      ∃ base, s.document.merging? members = some (base, merging.2) ∧
        Option.Rel r.Typed base merging.1 := by
  intro r merging r' hI ho
  match members with
  | [] =>
    cases ho
    exact ⟨hI, hG.refl r, none, rfl, .none⟩
  | [m] =>
    obtain ⟨t, r₁, hchild, ho⟩ := outcome_bind_eq_ok.1 ho
    cases ho
    obtain ⟨hI₁, hG₁, ht⟩ := h m (List.mem_singleton.2 rfl) hI hchild
    exact ⟨hI₁, hG₁, some m, rfl, .some ht⟩
  | m :: n :: ms =>
    unfold resolveAllOf at ho
    dsimp only at ho
    unfold Document.merging?
    dsimp only
    rw [← sortMembers_site s]
    split at ho
    · cases ho
    · next plain hs =>
      cases ho
      rw [hs]
      exact ⟨hI, hG.refl r, none, rfl, .none⟩
    · next base plain hs =>
      obtain ⟨t, r₁, hchild, ho⟩ := outcome_bind_eq_ok.1 ho
      cases ho
      have hbase : base ∈ s.document.baseNodes (m :: n :: ms) := by
        rw [Document.baseNodes_cons_cons, ← (sortMembers_ok hs).1]
        exact List.mem_singleton.2 rfl
      obtain ⟨hI₁, hG₁, ht⟩ := h base hbase hI hchild
      rw [hs]
      exact ⟨hI₁, hG₁, some base, rfl, .some ht⟩
    · cases ho

end Parts

end Resolver

end TypedClient
