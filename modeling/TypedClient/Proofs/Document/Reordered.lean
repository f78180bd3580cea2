import TypedClient.Document.Upgrade
import TypedClient.Proofs.Alike

/-! The members of one object of a document in another order. Values that differ so are kin: under
most keys they have the same member, and under the rest members that are kin again. Pointers lead
to values that are kin, so what a reference stands for is told up to that order. -/

namespace TypedClient

namespace Json

/-- The same value, but for the order of the members of the object at `path`, whose keys are
distinct. -/
inductive Reordered : List String → Json → Json → Prop
  | here {fields fields' : Assoc String Json} (hkeys : (Assoc.keys fields).Nodup)
      (h : fields.Perm fields') : Reordered [] (.obj fields) (.obj fields')
  | under {before after : Assoc String Json} {key : String} {path : List String} {v v' : Json}
      (hfirst : key ∉ Assoc.keys before) (h : Reordered path v v') :
      Reordered (key :: path) (.obj (before ++ (key, v) :: after))
        (.obj (before ++ (key, v') :: after))

variable {path : List String} {v v' : Json} {key : String}

theorem Reordered.symm (h : Reordered path v v') : Reordered path v' v := by
  induction h with
  | here hkeys h => exact .here ((h.map Prod.fst).nodup_iff.1 hkeys) h.symm
  | under hfirst _ ih => exact .under hfirst ih

/-- A key that `path` does not begin with has the same member. -/
theorem Reordered.get?_eq (h : Reordered path v v') (hkey : path.head? ≠ some key) :
    v.get? key = v'.get? key := by
  cases h with
  | here hkeys h => exact Assoc.get?_of_perm h hkeys key
  | @under before after first _ v v' hfirst h =>
    show Assoc.get? (before ++ (first, v) :: after) key =
      Assoc.get? (before ++ (first, v') :: after) key
    have hne : first ≠ key := fun he => hkey (congrArg some he)
    rw [Assoc.get?_append, Assoc.get?_append, Assoc.get?, Assoc.get?, if_neg hne, if_neg hne]

theorem Reordered.get?_under (h : Reordered (key :: path) v v') :
    ∃ u u', v.get? key = some u ∧ v'.get? key = some u' ∧ Reordered path u u' := by
  cases h with
  | @under before after _ _ u u' hfirst h =>
    refine ⟨u, u', ?_, ?_, h⟩
    all_goals
      show Assoc.get? (before ++ (key, _) :: after) key = _
      rw [Assoc.get?_append, Assoc.get?_eq_none_iff.2 hfirst, Assoc.get?, if_pos rfl]
      rfl

/-! ### Kin -/

/-- The keys that lead to the named schemas of a document, in either layout. -/
def layoutKeys : List String := ["components", "schemas", "definitions"]

/-- Values that are the same, but for the order of some object on the way to named schemas. -/
def Kin (v v' : Json) : Prop := v = v' ∨ ∃ path, path ⊆ layoutKeys ∧ Reordered path v v'

theorem Kin.refl (v : Json) : Kin v v := .inl rfl

theorem Kin.get?_eq (h : Kin v v') (hkey : key ∉ layoutKeys) : v.get? key = v'.get? key := by
  rcases h with rfl | ⟨path, hpath, h⟩
  · rfl
  · refine h.get?_eq fun hhead => hkey (hpath ?_)
    exact List.mem_of_mem_head? hhead

theorem Kin.get?_rel (h : Kin v v') (key : String) :
    Option.Rel Kin (v.get? key) (v'.get? key) := by
  rcases h with rfl | ⟨path, hpath, h⟩
  · exact rel_refl .refl _
  · by_cases hhead : path.head? = some key
    · obtain ⟨rest, rfl⟩ := List.head?_eq_some_iff.1 hhead
      obtain ⟨u, u', hu, hu', hrest⟩ := h.get?_under
      rw [hu, hu']
      exact .some (.inr ⟨rest, fun k hk => hpath (List.mem_cons_of_mem _ hk), hrest⟩)
    · rw [h.get?_eq hhead]
      exact rel_refl .refl _

section Texts

variable (h : Kin v v') (hkey : key ∉ layoutKeys)

include h hkey

theorem Kin.getString? : v.getString? key = v'.getString? key := by
  rw [Json.getString?, Json.getString?, h.get?_eq hkey]

theorem Kin.getArray? : v.getArray? key = v'.getArray? key := by
  rw [Json.getArray?, Json.getArray?, h.get?_eq hkey]

theorem Kin.getObject? : v.getObject? key = v'.getObject? key := by
  rw [Json.getObject?, Json.getObject?, h.get?_eq hkey]

end Texts

end Json

/-! ### Pointers -/

namespace Pointer

open Json

variable {root root' v v' : Json}

theorem step_kin (h : Kin v v') (segment : List Char) :
    Option.Rel Kin (step v segment) (step v' segment) := by
  rcases h with rfl | ⟨path, hpath, h⟩
  · exact rel_refl .refl _
  · have hget := Kin.get?_rel (.inr ⟨path, hpath, h⟩) (String.ofList segment)
    cases h with
    | here | under => exact hget

theorem steps_kin (h : Kin v v') (segments : List (List Char)) :
    Option.Rel Kin (segments.foldlM step v) (segments.foldlM step v') := by
  induction segments generalizing v v' with
  | nil => exact .some h
  | cons segment rest ih =>
    rw [List.foldlM_cons, List.foldlM_cons]
    have hstep := step_kin h segment
    generalize step v segment = u, step v' segment = u' at hstep
    cases hstep with
    | none => exact .none
    | some hu => exact ih hu

theorem lookup_kin (h : Kin root root') (reference : String) :
    Option.Rel Kin (lookup root reference) (lookup root' reference) := by
  have hwalk : ∀ pointer, Option.Rel Kin (walk root pointer) (walk root' pointer) := by
    intro pointer
    unfold walk
    split
    · exact .some h
    · exact steps_kin h _
    · exact .none
  unfold lookup
  split
  · split
    · exact hwalk _
    · exact .none
  · exact .none

/-- What references stand for in documents that are kin. -/
theorem follow_kin (h : Kin root root') (hv : Kin v v') :
    ExceptAlike Kin (follow root v) (follow root' v') := by
  unfold follow
  generalize maxHops = n
  induction n generalizing v v' with
  | zero => exact .error _ _
  | succ n ih =>
    rw [followWithin, followWithin]
    have hreference : reference? v = reference? v' := hv.getString? (by decide)
    rw [hreference]
    split
    · exact .ok hv
    · next reference _ =>
      have hlookup := lookup_kin h reference
      generalize lookup root reference = u, lookup root' reference = u' at hlookup
      cases hlookup with
      | none => exact .error _ _
      | some hu => exact ih hu

end Pointer

end TypedClient
