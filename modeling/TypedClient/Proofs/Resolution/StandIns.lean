import TypedClient.Proofs.Resolution.Advances
import TypedClient.Proofs.Resolution.Reentry

/-! Nodes that stand for others. A combination of which one member says something has the type of
this member, and it stays so whatever is requested, unless the member is asked for on its own: then
references may lead back to it and be cut there, and when the call is over the member has another
type than the combination has got meanwhile. A combination of which no member says anything has the
type `any`. -/

namespace TypedClient

namespace Document

variable {d : Document} {c s x : NodeId}

/-- Nothing has to be resolved for the node. -/
def SaysNothing (d : Document) (id : NodeId) : Prop :=
  (d.arena.get id).kind = .empty ∨
    ∃ how members, (d.arena.get id).kind = .combination how members ∧ d.sayingMembers members = []

theorem child_of_standsFor (h : d.StandsFor c s) : d.Child c s := by
  obtain ⟨how, members, hk, hsaying⟩ := h
  have hs : s ∈ d.sayingMembers members := hsaying ▸ List.mem_singleton.2 rfl
  unfold Child SchemaNode.children
  rw [hk]
  exact List.mem_append_right _ (List.mem_of_mem_filter hs)

/-- A member is resolved for nothing but the combination that stands for it. -/
theorem Forest.eq_of_standsFor (hd : d.Forest) (h : d.StandsFor c s) (hs : s ∈ d.next x) :
    x = c := by
  have hchild := child_of_standsFor h
  rcases child_of_mem_next hs with hx | ⟨m, -, hm, other, hk⟩
  · exact hd.parent_unique hx hchild
  · obtain ⟨how, members, hcombination, -⟩ := h
    rw [hd.parent_unique hm hchild, hcombination] at hk
    cases hk

end Document

namespace Resolver

variable {d : Document} {r r' : Resolver} {c s x : NodeId} {t : TypeId} {path : List String}

/-! ### Combinations of which one member says something -/

/-- `c` has no type but that of `s`. -/
def Accord (c s : NodeId) (r : Resolver) : Prop := ∀ t, r.Typed c t → r.Typed s t

/-- What comes after a state with `c` and `s` in accord is one, too. -/
def KeepsAccord (c s : NodeId) (r r' : Resolver) : Prop := Accord c s r → Accord c s r'

theorem going_keepsAccord (c s : NodeId) : Going (KeepsAccord c s) where
  refl _ h := h
  trans h h' haccord := h' (h haccord)
  intrinsic _ _ h := h
  adds t nameable id r h := by
    cases nameable with
    | true => exact h
    | false => exact h

/-- A node that is neither of the two gets a type. -/
theorem keepsAccord_of_kind (hd : d.Forest) (hc : x ≠ c) (hs : x ≠ s)
    (hkind : Goes (KeepsAccord c s) (resolveKind (site d path) x)) :
    Goes (KeepsAccord c s) (resolveNode d path x) := by
  intro r haccord
  have hafter := hkind r haccord
  rcases outcome_resolveNode hd path x r with
    ⟨t, -, ho⟩ | ⟨-, ⟨e, r', hfail, ho⟩ | ⟨t, r', hmade, ho⟩⟩
  · rw [ho]
    exact haccord
  · rw [hfail] at hafter
    rw [ho]
    exact hafter
  · rw [hmade] at hafter
    rw [ho]
    intro u hu
    have hbefore : r'.Typed c u := (Assoc.get?_put_of_ne hc ..).symm.trans hu
    exact (Assoc.get?_put_of_ne hs ..).trans (hafter u hbefore)

/-- `c` gets the type that the call for `s` gives. -/
theorem keepsAccord_of_standsFor (hd : d.Forest) (hst : d.StandsFor c s)
    (hkind : Goes (KeepsAccord c s) (resolveKind (site d path) s)) :
    Goes (KeepsAccord c s) (resolveNode d path c) := by
  intro r haccord
  have hafter := hkind r haccord
  have hne : c ≠ s := Nat.ne_of_gt (hd.child_lt (Document.child_of_standsFor hst))
  rcases outcome_resolveNode hd path c r with
    ⟨t, -, ho⟩ | ⟨-, ⟨e, r', hfail, ho⟩ | ⟨t, r', hmade, ho⟩⟩
  · rw [ho]
    exact haccord
  · rw [ho]
    rw [resolveKind_of_standsFor path hst] at hfail
    -- the call for `s` has failed, so it gave no type
    rcases outcome_resolveNode hd path s r with
      ⟨u, -, h⟩ | ⟨-, ⟨e', r'', hfails, h⟩ | ⟨u, r'', -, h⟩⟩
    · rw [h] at hfail
      cases hfail
    · rw [h] at hfail
      cases hfail
      rw [hfails] at hafter
      exact hafter
    · rw [h] at hfail
      cases hfail
  · rw [ho]
    rw [resolveKind_of_standsFor path hst] at hmade
    have hs : r'.Typed s t := memo_of_resolveNode hd hmade
    intro u hu
    have hsame : t = u := Option.some.inj ((Assoc.get?_put_self ..).symm.trans hu)
    exact hsame ▸ (Assoc.get?_put_of_ne hne ..).trans hs

theorem goingOn_keepsAccord (hd : d.Forest) (hst : d.StandsFor c s) :
    GoingOn d (fun x => x ≠ s) (fun y => y ≠ c) (KeepsAccord c s) where
  toGoing := going_keepsAccord c s
  cycles _ _ h := h
  settle name node t r haccord := by
    rcases outcome_settle name node t r with ⟨e, ho⟩ | ⟨graph, -, ho⟩
    · rw [ho]
      exact haccord
    · rw [ho]
      exact haccord
  node {path x} hx hkind := by
    have hlt : s < c := hd.child_lt (Document.child_of_standsFor hst)
    by_cases hc : x = c
    · subst hc
      exact keepsAccord_of_standsFor hd hst (hkind s (Nat.le_of_lt hlt) (Nat.ne_of_lt hlt))
    · exact keepsAccord_of_kind hd hc hx (hkind x (Nat.le_refl x) hc)
  next hy hz := by
    rintro rfl
    exact hy (hd.eq_of_standsFor hst hz)
  root hn := by
    rintro rfl
    exact hd.root_not_child hn (Document.child_of_standsFor hst)

/-- After any requests, those that failed included, but for ones for the member itself. -/
theorem accord_served (hd : d.Forest) (hst : d.StandsFor c s) {requests : List Request}
    (hasked : .call (.node s) ∉ requests) : Accord c s (served d requests) := by
  induction requests using List.reverseRecOn with
  | nil => exact fun t h => by cases h
  | append_singleton requests request ih =>
    rw [served_concat]
    refine (goingOn_keepsAccord hd hst).goes_request hd request (fun id hid => ?_) _
      (ih fun hmem => hasked (List.mem_append_left _ hmem))
    rintro rfl
    exact hasked (List.mem_append_right _ (hid ▸ List.mem_singleton.2 rfl))

/-! ### Combinations of which no member does -/

theorem resolveKind_of_saysNothing (path : List String) (h : d.SaysNothing x) :
    resolveKind (site d path) x = pure TypeGraph.any := by
  unfold resolveKind
  rcases h with hk | ⟨how, members, hk, hsaying⟩
  · have hkind : ((site d path).node x).kind = .empty := hk
    simp only [hkind]
  · have hkind : ((site d path).node x).kind = .combination how members := hk
    have hnone : members.filter (fun m => !isNullOnly ((site d path).node m)) = [] := hsaying
    simp only [hkind]
    unfold resolveCombination
    rw [hnone]

/-- Nodes for which nothing is resolved have the type `any`. -/
def OnlyAny (d : Document) (id : NodeId) (t : TypeId) : Prop :=
  d.SaysNothing id → t = TypeGraph.any

theorem demands_onlyAny : Demands d (OnlyAny d) := by
  intro path id r t r' ho hnothing
  rw [resolveKind_of_saysNothing path hnothing] at ho
  cases ho
  rfl

/-! ### What a node comes to -/

/-- The node has this type; or it is `any`, and nothing has to be resolved for the node. -/
def ResolvesTo (d : Document) (r : Resolver) (id : NodeId) (t : TypeId) : Prop :=
  r.Typed id t ∨ d.SaysNothing id ∧ t = TypeGraph.any

theorem ResolvesTo.of_recalls (h : ResolvesTo d r x t) (hr : Recalls r r') : ResolvesTo d r' x t :=
  h.imp_left hr.memo

end Resolver

end TypedClient
