import Mathlib.Data.List.Nodup
import Mathlib.Data.List.Perm.Subperm
import Mathlib.Tactic.Common
import Std.Data.String.ToNat
import TypedClient.Client.RouteTree

/-! The actions that a route tree holds. Of the names that are tried for an action there is one more
than names are taken, so one of them is free. Placing an action under a free name adds it and loses
none; dropping the common groups and flattening groups to controllers keep all of them. In a tree
that was filled action by action every group holds one, so no controller and no namespace is empty. -/

namespace TypedClient.RouteTree

/-! ### Names that are not taken -/

theorem numbered_injective (name : String) : Function.Injective (numbered name) := by
  intro m n h
  unfold numbered at h
  have hl := String.ofList_injective h
  have hd : (toString m).toList = (toString n).toList :=
    List.append_cancel_left (List.append_cancel_right hl)
  exact Nat.repr_injective (String.toList_injective hd)

/-- One of the numbers from two on, as many as names are taken and one more, is free. -/
theorem exists_numbered_not_mem (taken : List String) (name : String) :
    ∃ candidate ∈ (List.range' 2 (taken.length + 1)).map (numbered name), candidate ∉ taken := by
  by_contra hall
  push Not at hall
  have hnodup : ((List.range' 2 (taken.length + 1)).map (numbered name)).Nodup :=
    List.Nodup.map (numbered_injective name) List.nodup_range'
  have hle := (hnodup.subperm hall).length_le
  rw [List.length_map, List.length_range'] at hle
  omega

theorem freshName_of_not_mem {taken : List String} {name : String} (h : name ∉ taken) :
    freshName taken name = name := by
  simp [freshName, h]

theorem freshName_not_mem (taken : List String) (name : String) : freshName taken name ∉ taken := by
  by_cases h : name ∈ taken
  · obtain ⟨free, hmem, hfree⟩ := exists_numbered_not_mem taken name
    have hsome : (((List.range' 2 (taken.length + 1)).map (numbered name)).find?
        (!taken.contains ·)).isSome :=
      List.find?_isSome.2 ⟨free, hmem, by simpa using hfree⟩
    obtain ⟨found, hfound⟩ := Option.isSome_iff_exists.1 hsome
    have hnot : found ∉ taken := by simpa using List.find?_some hfound
    rw [freshName, if_pos (by simpa using h), hfound]
    exact hnot
  · rw [freshName_of_not_mem h]; exact h

/-! ### Held actions -/

mutual

/-- All actions of a tree: those that stand in a place, then those below it. -/
def held : RouteTree → List Action
  | .node actions groups => Assoc.values actions ++ heldAll groups

def heldAll : List (String × RouteTree) → List Action
  | [] => []
  | (_, t) :: rest => held t ++ heldAll rest

end

mutual

/-- Every group of a tree, however deep, holds an action. -/
def Populated : RouteTree → Prop
  | .node _ groups => PopulatedAll groups

def PopulatedAll : List (String × RouteTree) → Prop
  | [] => True
  | (_, t) :: rest => held t ≠ [] ∧ Populated t ∧ PopulatedAll rest

end

theorem held_eq (t : RouteTree) : held t = Assoc.values t.actions ++ heldAll t.groups := by
  cases t; rfl

theorem populated_iff (t : RouteTree) : Populated t ↔ PopulatedAll t.groups := by
  cases t; exact Iff.rfl

theorem heldAll_eq_flatMap (groups : List (String × RouteTree)) :
    heldAll groups = groups.flatMap fun g => held g.2 := by
  induction groups with
  | nil => rfl
  | cons g rest ih => rw [heldAll, ih, List.flatMap_cons]

theorem heldAll_append (groups more : List (String × RouteTree)) :
    heldAll (groups ++ more) = heldAll groups ++ heldAll more := by
  simp only [heldAll_eq_flatMap, List.flatMap_append]

theorem populatedAll_iff (groups : List (String × RouteTree)) :
    PopulatedAll groups ↔ ∀ g ∈ groups, held g.2 ≠ [] ∧ Populated g.2 := by
  induction groups with
  | nil => simp [PopulatedAll]
  | cons g rest ih => rw [PopulatedAll, ih, List.forall_mem_cons, and_assoc]

/-! ### Placing -/

theorem held_insert (a : Action) (path : List String) (t : RouteTree)
    (hfree : a.name ∉ Assoc.keys (under path t).actions) :
    (held (insert a path t)).Perm (a :: held t) := by
  induction path generalizing t with
  | nil =>
    obtain ⟨actions, groups⟩ := t
    have hnone : Assoc.get? actions a.name = none := Assoc.get?_eq_none_iff.2 hfree
    rw [insert, Assoc.put_of_get?_none hnone, held, held, Assoc.values, List.map_append]
    simp only [List.map_cons, List.map_nil, List.append_assoc, List.cons_append, List.nil_append]
    exact List.perm_middle
  | cons s path ih =>
    obtain ⟨actions, groups⟩ := t
    rw [insert, held, held, Assoc.modify]
    refine List.Perm.trans (List.Perm.append_left _ ?_) List.perm_middle
    rw [under] at hfree
    change a.name ∉ Assoc.keys (under path ((Assoc.get? groups s).getD empty)).actions at hfree
    cases hs : Assoc.get? groups s with
    | none =>
      rw [hs] at hfree
      rw [Assoc.put_of_get?_none hs, heldAll_append, heldAll, heldAll, List.append_nil]
      refine (List.Perm.append_left _ (ih empty hfree)).trans (List.perm_middle.trans ?_)
      rw [show held empty = [] from rfl, List.append_nil]
    | some old =>
      rw [hs] at hfree
      obtain ⟨before, after, hgroups, hput⟩ := Assoc.put_of_get?_some hs
      rw [hput, hgroups, heldAll_append, heldAll_append, heldAll, heldAll]
      refine List.Perm.trans (List.Perm.append_left _ ?_) List.perm_middle
      exact (ih old hfree).append_right _

theorem held_insert_ne_nil (a : Action) (path : List String) (t : RouteTree)
    (hfree : a.name ∉ Assoc.keys (under path t).actions) : held (insert a path t) ≠ [] := by
  intro hnil
  have hp := held_insert a path t hfree
  rw [hnil] at hp
  exact List.cons_ne_nil _ _ hp.symm.eq_nil

theorem populated_insert (a : Action) (path : List String) (t : RouteTree)
    (hfree : a.name ∉ Assoc.keys (under path t).actions) (ht : Populated t) :
    Populated (insert a path t) := by
  induction path generalizing t with
  | nil =>
    obtain ⟨actions, groups⟩ := t
    exact ht
  | cons s path ih =>
    obtain ⟨actions, groups⟩ := t
    rw [insert, Populated, Assoc.modify, populatedAll_iff]
    rw [Populated, populatedAll_iff] at ht
    rw [under] at hfree
    change a.name ∉ Assoc.keys (under path ((Assoc.get? groups s).getD empty)).actions at hfree
    have hchild : Populated ((Assoc.get? groups s).getD empty) := by
      cases hs : Assoc.get? groups s with
      | none => exact trivial
      | some old => exact (ht _ (Assoc.mem_of_get? hs)).2
    have hnew := And.intro (held_insert_ne_nil a path _ hfree) (ih _ hfree hchild)
    intro g hg
    cases hs : Assoc.get? groups s with
    | none =>
      rw [Assoc.put_of_get?_none hs, List.mem_append, List.mem_singleton] at hg
      rcases hg with hg | rfl
      · exact ht g hg
      · exact hnew
    | some old =>
      obtain ⟨before, after, hgroups, hput⟩ := Assoc.put_of_get?_some hs
      rw [hput, List.mem_append, List.mem_cons] at hg
      rcases hg with hg | rfl | hg
      · exact ht g (by rw [hgroups]; exact List.mem_append_left _ hg)
      · exact hnew
      · exact ht g (by rw [hgroups]; exact List.mem_append_right _ (List.mem_cons_of_mem _ hg))

end TypedClient.RouteTree
