import Mathlib.Algebra.Order.BigOperators.Group.List
import Mathlib.Algebra.Order.Ring.Nat
import TypedClient.Proofs.Types.Order

/-! The types that are named where a type is written in code: an array is written as its element,
and a generic type as itself with its arguments. A type is among them exactly if what is written
depends on its name. -/

namespace TypedClient

namespace TypeGraph

/-- The name of `u` stands in what is written for a type. -/
inductive NamedIn (g : TypeGraph) (u : TypeId) : TypeId → Prop
  | self (ha : (g.get u).isArray = false) : NamedIn g u u
  | element {id element : TypeId} (ha : (g.get id).isArray = true)
      (he : (g.get id).element = some element) (h : NamedIn g u element) : NamedIn g u id
  | argument {id argument : TypeId} (ha : (g.get id).isArray = false)
      (hg : (g.get id).isGeneric = true) (hm : argument ∈ (g.get id).genericArguments)
      (h : NamedIn g u argument) : NamedIn g u id

/-- The graph in which one type has another name. -/
def renamed (g : TypeGraph) (u : TypeId) (name : String) : TypeGraph :=
  g.set u { g.get u with name }

variable {g : TypeGraph} {id u : TypeId} {name : String}

theorem size_renamed (g : TypeGraph) (u : TypeId) (name : String) :
    (g.renamed u name).size = g.size :=
  Array.size_setIfInBounds

theorem get_renamed (hu : u < g.size) (name : String) (id : TypeId) :
    (g.renamed u name).get id =
      { g.get id with name := if u = id then name else (g.get id).name } := by
  rw [renamed, get, get?_set]
  split
  · next heq =>
    rw [← heq, get?_eq_get hu]
    rfl
  · rfl

/-- A type is written the same if the name of another one changes that is not in it. -/
theorem spellWithin_renamed_of_not_namedIn (hu : u < g.size) (name : String) (depth : Nat) :
    ∀ id, ¬ NamedIn g u id → spellWithin (g.renamed u name) depth id = spellWithin g depth id := by
  induction depth with
  | zero => exact fun id _ => rfl
  | succ depth ih =>
    intro id hid
    rw [spellWithin, spellWithin, get_renamed hu]
    dsimp only
    split
    · next ha =>
      split
      · next element he => rw [ih element fun h => hid (.element ha he h)]
      · rfl
    · next ha =>
      rw [Bool.not_eq_true] at ha
      have hne : u ≠ id := by
        rintro rfl
        exact hid (.self ha)
      rw [if_neg hne]
      split
      · next hgeneric =>
        rw [Bool.and_eq_true] at hgeneric
        have hargs : (g.get id).genericArguments.map (spellWithin (g.renamed u name) depth) =
            (g.get id).genericArguments.map (spellWithin g depth) :=
          List.map_congr_left fun a hm => ih a fun h => hid (.argument ha hgeneric.1 hm h)
        rw [hargs]
      · rfl

/-! ### Longer names -/

theorem length_intercalate (separator : String) (texts : List String) :
    (separator.intercalate texts).length =
      (texts.map String.length).sum + separator.length * (texts.length - 1) := by
  induction texts with
  | nil => rfl
  | cons text rest ih =>
    cases rest with
    | nil => simp
    | cons other rest =>
      rw [String.intercalate_cons_cons, String.length_append, String.length_append, ih]
      simp only [List.map_cons, List.sum_cons, List.length_cons, Nat.add_sub_cancel, Nat.mul_succ]
      omega

section Lengths

variable {f f' : TypeId → String} {ids : List TypeId}

theorem length_intercalate_map_le (separator : String)
    (h : ∀ id ∈ ids, (f id).length ≤ (f' id).length) :
    (separator.intercalate (ids.map f)).length ≤ (separator.intercalate (ids.map f')).length := by
  rw [length_intercalate, length_intercalate, List.length_map, List.length_map, List.map_map,
    List.map_map]
  exact Nat.add_le_add_right (List.sum_le_sum h) _

theorem length_intercalate_map_lt (separator : String)
    (h : ∀ id ∈ ids, (f id).length ≤ (f' id).length)
    (hlt : ∃ id ∈ ids, (f id).length < (f' id).length) :
    (separator.intercalate (ids.map f)).length < (separator.intercalate (ids.map f')).length := by
  rw [length_intercalate, length_intercalate, List.length_map, List.length_map, List.map_map,
    List.map_map]
  exact Nat.add_lt_add_right (List.sum_lt_sum _ _ h hlt) _

end Lengths

theorem length_name_le (hname : (g.get u).name.length < name.length) (id : TypeId) :
    (g.get id).name.length ≤ (if u = id then name else (g.get id).name).length := by
  split
  · next heq => exact heq ▸ hname.le
  · exact Nat.le_refl _

/-- What is written gets no shorter with a longer name. -/
theorem length_spellWithin_le (hu : u < g.size) (hname : (g.get u).name.length < name.length)
    (depth : Nat) :
    ∀ id, (spellWithin g depth id).length ≤ (spellWithin (g.renamed u name) depth id).length := by
  induction depth with
  | zero => exact fun id => Nat.le_refl _
  | succ depth ih =>
    intro id
    have hown := length_name_le hname id
    rw [spellWithin, spellWithin, get_renamed hu]
    dsimp only
    split
    · split
      · next element he =>
        rw [String.length_append, String.length_append]
        exact Nat.add_le_add_right (ih element) _
      · exact Nat.le_refl _
    · split
      · have hargs := length_intercalate_map_le ","
          fun a (_ : a ∈ (g.get id).genericArguments) => ih a
        simp only [String.length_append]
        omega
      · exact hown

/-- It gets longer if the name is in it. -/
theorem length_spellWithin_lt (hg : g.Ordered) (hu : u < g.size)
    (hname : (g.get u).name.length < name.length) (h : NamedIn g u id) :
    ∀ {depth}, id < g.size → id < depth →
      (spellWithin g depth id).length < (spellWithin (g.renamed u name) depth id).length := by
  -- references go to older types, so the depth is enough all the way down to the name
  induction h with
  | self ha =>
    intro depth _ hdepth
    obtain ⟨depth, rfl⟩ := Nat.exists_eq_add_one_of_ne_zero (Nat.ne_zero_of_lt hdepth)
    rw [spellWithin, spellWithin, get_renamed hu]
    dsimp only
    rw [ha, if_neg Bool.false_ne_true, if_neg Bool.false_ne_true, if_pos rfl]
    split
    · have hargs := length_intercalate_map_le ","
        fun a (_ : a ∈ (g.get u).genericArguments) => length_spellWithin_le hu hname depth a
      simp only [String.length_append]
      omega
    · exact hname
  | @element id element ha he _ ih =>
    intro depth hid hdepth
    obtain ⟨depth, rfl⟩ := Nat.exists_eq_add_one_of_ne_zero (Nat.ne_zero_of_lt hdepth)
    have hlt := hg.older (get?_eq_get hid) _ (mem_references_of_element he)
    have hlonger : (spellWithin g depth element).length < _ :=
      ih (hlt.trans hid) (Nat.lt_of_lt_of_le hlt (Nat.lt_succ_iff.1 hdepth))
    rw [spellWithin, spellWithin, get_renamed hu]
    dsimp only
    rw [ha, he, if_pos rfl, if_pos rfl, String.length_append, String.length_append]
    exact Nat.add_lt_add_right hlonger _
  | @argument id argument ha hgeneric hm _ ih =>
    intro depth hid hdepth
    obtain ⟨depth, rfl⟩ := Nat.exists_eq_add_one_of_ne_zero (Nat.ne_zero_of_lt hdepth)
    have hlt := hg.older (get?_eq_get hid) _ (mem_references_of_argument hm)
    have hlonger : (spellWithin g depth argument).length < _ :=
      ih (hlt.trans hid) (Nat.lt_of_lt_of_le hlt (Nat.lt_succ_iff.1 hdepth))
    have hargs := length_intercalate_map_lt "," (fun a _ => length_spellWithin_le hu hname depth a)
      ⟨argument, hm, hlonger⟩
    have hown := length_name_le hname id
    have hsome : ((g.get id).isGeneric && !(g.get id).genericArguments.isEmpty) = true := by
      rw [hgeneric, Bool.true_and, Bool.not_eq_true', List.isEmpty_eq_false_iff]
      exact List.ne_nil_of_mem hm
    rw [spellWithin, spellWithin, get_renamed hu]
    dsimp only
    rw [ha, hsome, if_neg Bool.false_ne_true, if_neg Bool.false_ne_true, if_pos rfl, if_pos rfl]
    simp only [String.length_append]
    omega

/-- A type is named in what is written if that would be another text with another name. -/
theorem namedIn_iff_spell (hg : g.Ordered) (hid : id < g.size) (hu : u < g.size) :
    NamedIn g u id ↔ ∃ name, (g.renamed u name).spell id ≠ g.spell id := by
  constructor
  · intro h
    refine ⟨(g.get u).name.push 'x', fun heq => ?_⟩
    have hlonger : (g.get u).name.length < ((g.get u).name.push 'x').length := by
      rw [String.length_push]
      exact Nat.lt_succ_self _
    have hlt := length_spellWithin_lt hg hu hlonger h hid hid
    rw [spell, spell, size_renamed] at heq
    exact Nat.lt_irrefl _ (heq ▸ hlt)
  · rintro ⟨name, hne⟩
    by_contra hnot
    refine hne ?_
    rw [spell, spell, size_renamed]
    exact spellWithin_renamed_of_not_namedIn hu name g.size id hnot

end TypeGraph

end TypedClient
