import Mathlib.Data.List.Lex
import Mathlib.Data.List.Nodup
import Mathlib.Data.String.Basic
import Mathlib.Logic.Relation
import TypedClient.Graph
import TypedClient.Proofs.Alike

/-! The groups of a graph, whatever finds its components. A graph whose paths never come back to
where they began has no groups. Two nodes are in one group exactly if there are paths both ways
between them, so no two groups have a node in common, and a node is a group by itself exactly if it
has an edge to itself and is in no larger group. Groups and their nodes are sorted: the order of
texts is the usual one, and so is that of lists of texts. -/

/-! ### Sorted texts -/

namespace TypedClient.Text

variable {α : Type} [LinearOrder α]

/-- The order of lists, by the first item that differs. -/
theorem cons_le_cons_iff {a b : α} {as bs : List α} :
    a :: as ≤ b :: bs ↔ a < b ∨ a = b ∧ as ≤ bs := by
  rw [← not_lt, List.cons_lt_cons_iff, not_or, not_lt, not_and, not_lt, le_iff_lt_or_eq]
  constructor
  · rintro ⟨hlt | heq, hrest⟩
    · exact .inl hlt
    · exact .inr ⟨heq, hrest heq.symm⟩
  · rintro (hlt | ⟨heq, hrest⟩)
    · exact ⟨.inl hlt, fun heq => absurd heq.symm hlt.ne⟩
    · exact ⟨.inr heq, fun _ => hrest⟩

theorem nil_le (as : List α) : [] ≤ as := not_lt.1 (List.not_lt_nil as)

theorem not_cons_le_nil (a : α) (as : List α) : ¬ a :: as ≤ [] :=
  not_le.2 (List.nil_lt_cons a as)

theorem precedesChars_iff {as bs : List Char} : precedesChars as bs = true ↔ as ≤ bs := by
  induction as generalizing bs with
  | nil => exact iff_of_true rfl (nil_le bs)
  | cons a as ih =>
    cases bs with
    | nil => exact iff_of_false Bool.false_ne_true (not_cons_le_nil a as)
    | cons b bs =>
      have hlt : a.toNat < b.toNat ↔ a < b := Iff.rfl
      have heq : a.toNat = b.toNat ↔ a = b := Char.toNat_inj
      rw [precedesChars, Bool.or_eq_true, Bool.and_eq_true, decide_eq_true_iff, beq_iff_eq, ih, hlt,
        heq, cons_le_cons_iff]

theorem precedes_iff {s t : String} : precedes s t = true ↔ s ≤ t := by
  rw [precedes, precedesChars_iff, String.le_iff_toList_le]

theorem precedesAll_iff {ss ts : List String} : precedesAll ss ts = true ↔ ss ≤ ts := by
  induction ss generalizing ts with
  | nil => exact iff_of_true rfl (nil_le ts)
  | cons s ss ih =>
    cases ts with
    | nil => exact iff_of_false Bool.false_ne_true (not_cons_le_nil s ss)
    | cons t ts =>
      rw [precedesAll, cons_le_cons_iff]
      split
      · next heq => simp [heq, ih]
      · next hne =>
        rw [precedes_iff, le_iff_lt_or_eq, or_iff_left hne, or_iff_left fun h => hne h.1]

/-- Without repetition, what is sorted grows from item to item. -/
theorem pairwise_lt_mergeSort {le : α → α → Bool}
    (hle : ∀ {a b}, le a b = true ↔ a ≤ b) {xs : List α} (h : xs.Nodup) :
    (xs.mergeSort le).Pairwise (· < ·) := by
  have hsorted : (xs.mergeSort le).Pairwise fun a b => le a b = true := by
    refine List.pairwise_mergeSort (fun a b c hab hbc => ?_) (fun a b => ?_) xs
    · exact hle.2 ((hle.1 hab).trans (hle.1 hbc))
    · rw [Bool.or_eq_true, hle, hle]
      exact le_total a b
  have hnodup : (xs.mergeSort le).Nodup := (List.mergeSort_perm xs le).nodup_iff.2 h
  exact (hsorted.and hnodup).imp fun ⟨hab, hne⟩ => lt_of_le_of_ne (hle.1 hab) hne

theorem pairwise_lt_sort {ss : List String} (h : ss.Nodup) : (sort ss).Pairwise (· < ·) :=
  pairwise_lt_mergeSort precedes_iff h

theorem mem_sort {ss : List String} {s : String} : s ∈ sort ss ↔ s ∈ ss :=
  (List.mergeSort_perm ss precedes).mem_iff

end TypedClient.Text

namespace TypedClient.Graph

open Relation

variable {nodes : List String} {next : String → List String} {x y z : String}
  {component group : List String}

/-! ### Paths both ways -/

namespace Together

theorem symm (h : Together next x y) : Together next y x := ⟨h.2, h.1⟩

theorem trans (h : Together next x y) (h' : Together next y z) : Together next x z :=
  ⟨h.1.trans h'.1, h'.2.trans h.2⟩

theorem self (h : Together next x y) : Together next x x := h.trans h.symm

/-- The first edge of a way back to a node leads to a node that is together with it. -/
theorem exists_edge (h : Together next x x) : ∃ y, Edge next x y ∧ Together next x y := by
  obtain ⟨y, hedge, hback⟩ := TransGen.head'_iff.1 h.1
  refine ⟨y, hedge, .single hedge, ?_⟩
  rcases reflTransGen_iff_eq_or_transGen.1 hback with rfl | hback
  · exact .single hedge
  · exact hback

end Together

/-! ### Components -/

variable [Components] [LawfulComponents]

theorem nodup_flatten_components (hnodup : nodes.Nodup) (hin : Within nodes next) :
    (Components.components nodes next).flatten.Nodup :=
  (LawfulComponents.perm hnodup hin).nodup_iff.2 hnodup

theorem nodup_component (hnodup : nodes.Nodup) (hin : Within nodes next)
    (hcomponent : component ∈ Components.components nodes next) : component.Nodup :=
  (List.nodup_flatten.1 (nodup_flatten_components hnodup hin)).1 component hcomponent

theorem exists_component (hnodup : nodes.Nodup) (hin : Within nodes next) (hx : x ∈ nodes) :
    ∃ component ∈ Components.components nodes next, x ∈ component :=
  List.mem_flatten.1 ((LawfulComponents.perm hnodup hin).mem_iff.2 hx)

/-- A component with a node has a cycle exactly if the node lies on one: then there are other nodes
in the component or an edge from the node to itself. -/
theorem isCyclic_iff (hnodup : nodes.Nodup) (hin : Within nodes next)
    (hcomponent : component ∈ Components.components nodes next) (hx : x ∈ component) :
    isCyclic next component = true ↔ Together next x x := by
  have hmem {y : String} : y ∈ component ↔ y = x ∨ Together next x y :=
    LawfulComponents.mem_iff hnodup hin hcomponent hx
  have hdistinct := nodup_component hnodup hin hcomponent
  rw [isCyclic, Bool.or_eq_true, decide_eq_true_iff, Option.any_eq_true]
  constructor
  · rintro (hlength | ⟨y, hy, hedge⟩)
    · obtain ⟨y, hy, hne⟩ : ∃ y ∈ component, y ≠ x := by
        by_contra hall
        push Not at hall
        have hone := List.nodup_iff_count_le_one.1 hdistinct x
        rw [List.count_eq_length.2 fun y hy => (hall y hy).symm] at hone
        omega
      exact ((hmem.1 hy).resolve_left hne).self
    · have hedge : Edge next y y := List.contains_iff_mem.1 hedge
      rcases hmem.1 (List.mem_of_mem_head? hy) with rfl | h
      · exact ⟨.single hedge, .single hedge⟩
      · exact h.self
  · intro h
    obtain ⟨y, hedge, hy⟩ := h.exists_edge
    rcases component with _ | ⟨first, _ | ⟨second, rest⟩⟩
    · exact absurd hx List.not_mem_nil
    · obtain rfl := List.mem_singleton.1 hx
      obtain rfl := List.mem_singleton.1 (hmem.2 (.inr hy))
      exact .inr ⟨y, rfl, List.contains_iff_mem.2 hedge⟩
    · exact .inl (by simp)

/-! ### Groups -/

omit [LawfulComponents] in
theorem mem_groups : group ∈ groups nodes next ↔
    ∃ component ∈ Components.components nodes next,
      isCyclic next component = true ∧ Text.sort component = group := by
  rw [groups, (List.mergeSort_perm _ _).mem_iff, List.mem_map]
  simp only [List.mem_filter, and_assoc]

/-- A group is told by each of its nodes. -/
theorem mem_group_iff (hnodup : nodes.Nodup) (hin : Within nodes next)
    (hgroup : group ∈ groups nodes next) (hx : x ∈ group) : y ∈ group ↔ Together next x y := by
  obtain ⟨component, hcomponent, hcyclic, rfl⟩ := mem_groups.1 hgroup
  rw [Text.mem_sort] at hx ⊢
  have hself := (isCyclic_iff hnodup hin hcomponent hx).1 hcyclic
  rw [LawfulComponents.mem_iff hnodup hin hcomponent hx]
  exact ⟨fun h => h.elim (fun heq => heq ▸ hself) id, .inr⟩

theorem exists_group (hnodup : nodes.Nodup) (hin : Within nodes next) (h : Together next x x) :
    ∃ group ∈ groups nodes next, x ∈ group := by
  obtain ⟨w, -, hedge⟩ := TransGen.tail'_iff.1 h.1
  obtain ⟨component, hcomponent, hx⟩ := exists_component hnodup hin (hin hedge)
  have hcyclic := (isCyclic_iff hnodup hin hcomponent hx).2 h
  exact ⟨_, mem_groups.2 ⟨component, hcomponent, hcyclic, rfl⟩, Text.mem_sort.2 hx⟩

theorem share_group_iff (hnodup : nodes.Nodup) (hin : Within nodes next) :
    (∃ group ∈ groups nodes next, x ∈ group ∧ y ∈ group) ↔ Together next x y := by
  constructor
  · rintro ⟨group, hgroup, hx, hy⟩
    exact (mem_group_iff hnodup hin hgroup hx).1 hy
  · intro h
    obtain ⟨group, hgroup, hx⟩ := exists_group hnodup hin h.self
    exact ⟨group, hgroup, hx, (mem_group_iff hnodup hin hgroup hx).2 h⟩

theorem ne_nil_of_mem_groups (hnodup : nodes.Nodup) (hin : Within nodes next)
    (hgroup : group ∈ groups nodes next) : group ≠ [] := by
  obtain ⟨component, hcomponent, -, rfl⟩ := mem_groups.1 hgroup
  obtain ⟨x, hx⟩ := List.exists_mem_of_ne_nil _ (LawfulComponents.ne_nil hnodup hin hcomponent)
  exact List.ne_nil_of_mem (Text.mem_sort.2 hx)

theorem pairwise_lt_group (hnodup : nodes.Nodup) (hin : Within nodes next)
    (hgroup : group ∈ groups nodes next) : group.Pairwise (· < ·) := by
  obtain ⟨component, hcomponent, -, rfl⟩ := mem_groups.1 hgroup
  exact Text.pairwise_lt_sort (nodup_component hnodup hin hcomponent)

/-- Two groups with a node in common have the same nodes, and both are sorted. -/
theorem group_unique (hnodup : nodes.Nodup) (hin : Within nodes next) {group' : List String}
    (hgroup : group ∈ groups nodes next) (hgroup' : group' ∈ groups nodes next) (hx : x ∈ group)
    (hx' : x ∈ group') : group = group' := by
  have hsorted := pairwise_lt_group hnodup hin hgroup
  have hsorted' := pairwise_lt_group hnodup hin hgroup'
  refine List.Perm.eq_of_pairwise (fun a b _ _ hab hba => absurd hba hab.not_gt) hsorted hsorted' ?_
  refine (List.perm_ext_iff_of_nodup (hsorted.imp ne_of_lt) (hsorted'.imp ne_of_lt)).2 fun y => ?_
  rw [mem_group_iff hnodup hin hgroup hx, mem_group_iff hnodup hin hgroup' hx']

theorem singleton_mem_groups (hnodup : nodes.Nodup) (hin : Within nodes next) :
    [x] ∈ groups nodes next ↔
      Edge next x x ∧ ∀ group ∈ groups nodes next, x ∈ group → group.length ≤ 1 := by
  constructor
  · intro h
    have hmem {y : String} : y ∈ [x] ↔ Together next x y :=
      mem_group_iff hnodup hin h (List.mem_singleton_self x)
    obtain ⟨y, hedge, hy⟩ := (hmem.1 (List.mem_singleton_self x)).exists_edge
    obtain rfl := List.mem_singleton.1 (hmem.2 hy)
    refine ⟨hedge, fun group hgroup hx => ?_⟩
    rw [group_unique hnodup hin hgroup h hx (List.mem_singleton_self y), List.length_singleton]
  · rintro ⟨hedge, hsmall⟩
    obtain ⟨group, hgroup, hx⟩ := exists_group hnodup hin (x := x) ⟨.single hedge, .single hedge⟩
    obtain ⟨y, rfl⟩ : ∃ y, group = [y] := List.length_eq_one_iff.1
      (Nat.le_antisymm (hsmall _ hgroup hx) (List.length_pos_of_mem hx))
    rwa [List.mem_singleton.1 hx]

theorem pairwise_lt_groups (hnodup : nodes.Nodup) (hin : Within nodes next) :
    (groups nodes next).Pairwise (· < ·) := by
  have hdisjoint := (List.nodup_flatten.1 (nodup_flatten_components hnodup hin)).2
  refine Text.pairwise_lt_mergeSort Text.precedesAll_iff (List.pairwise_map.2 ?_)
  refine (hdisjoint.sublist List.filter_sublist).imp_of_mem fun {a b} ha _ hab heq => ?_
  obtain ⟨x, hx⟩ := List.exists_mem_of_ne_nil _
    (LawfulComponents.ne_nil hnodup hin (List.mem_of_mem_filter ha))
  exact hab hx (Text.mem_sort.1 (heq ▸ Text.mem_sort.2 hx))

theorem disjoint_groups (hnodup : nodes.Nodup) (hin : Within nodes next) :
    (groups nodes next).Pairwise List.Disjoint :=
  (pairwise_lt_groups hnodup hin).imp_of_mem fun ha hb hlt _ hxa hxb =>
    hlt.ne (group_unique hnodup hin ha hb hxa hxb)

/-- A graph without a path that comes back has no groups. -/
theorem groups_eq_nil (hnodup : nodes.Nodup) (hin : Within nodes next)
    (hacyclic : ∀ x, ¬ TransGen (Edge next) x x) : groups nodes next = [] := by
  refine List.eq_nil_iff_forall_not_mem.2 fun group hgroup => ?_
  obtain ⟨x, hx⟩ := List.exists_mem_of_ne_nil _ (ne_nil_of_mem_groups hnodup hin hgroup)
  exact hacyclic x ((mem_group_iff hnodup hin hgroup hx).1 hx).1

end TypedClient.Graph
