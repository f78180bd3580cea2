import TypedClient.Proofs.Outcome
import TypedClient.Proofs.Schema.ReadAlike

/-! Schemas that are read elsewhere. Where a schema stands is told in the failure to read it and
nowhere else; so where a schema can be read at two places, both readings add the same
nodes. -/

namespace TypedClient

namespace Building

variable {α β γ δ : Type} {R : α → β → Prop} {T : γ → δ → Prop}

/-- Run from the same arena, the two give related values and leave the same arena, when they both
give something. -/
def Coincide (R : α → β → Prop) (m : Building α) (m' : Building β) : Prop :=
  ∀ s a t b t', outcome m s = (.ok a, t) → outcome m' s = (.ok b, t') → R a b ∧ t = t'

namespace Coincide

theorem pure {a : α} {b : β} (h : R a b) : Coincide R (Pure.pure a) (Pure.pure b) := by
  intro s c t d t' hc hd
  cases hc
  cases hd
  exact ⟨h, rfl⟩

theorem refl (m : Building α) : Coincide Eq m m := by
  intro s a t b t' ha hb
  rw [ha] at hb
  cases hb
  exact ⟨rfl, rfl⟩

theorem throw_left (e : Failure) (m' : Building β) : Coincide R (throw e : Building α) m' := nofun

theorem throw_right (m : Building α) (e : Failure) : Coincide R m (throw e : Building β) := nofun

theorem ofExcept {x : Except Failure α} {y : Except Failure β} (h : Jointly R x y) :
    Coincide R (Building.ofExcept x) (Building.ofExcept y) := by
  cases x with
  | error e => exact throw_left e _
  | ok a =>
    cases y with
    | error e => exact throw_right _ e
    | ok b => exact pure (h a b rfl rfl)

theorem bind {m : Building α} {m' : Building β} {f : α → Building γ} {f' : β → Building δ}
    (hm : Coincide R m m') (hf : ∀ {a b}, R a b → Coincide T (f a) (f' b)) :
    Coincide T (m >>= f) (m' >>= f') := by
  intro s c t d t' h h'
  obtain ⟨a, u, ha, hc⟩ := outcome_bind_eq_ok.1 h
  obtain ⟨b, u', hb, hd⟩ := outcome_bind_eq_ok.1 h'
  obtain ⟨hab, rfl⟩ := hm s a u b u' ha hb
  exact hf hab u c t d t' hc hd

/-- The same value is given to both. -/
theorem next {m m' : Building α} {f : α → Building γ} {f' : α → Building δ}
    (hm : Coincide Eq m m') (hf : ∀ a, Coincide T (f a) (f' a)) :
    Coincide T (m >>= f) (m' >>= f') :=
  hm.bind fun {a _} h => h ▸ hf a

theorem map {m : Building α} {m' : Building β} {f : α → γ} {f' : β → δ} (hm : Coincide R m m')
    (hf : ∀ {a b}, R a b → T (f a) (f' b)) : Coincide T (f <$> m) (f' <$> m') := by
  rw [map_eq_pure_bind, map_eq_pure_bind]
  exact hm.bind fun h => pure (hf h)

theorem mapM {f : α → Building γ} {f' : β → Building δ} {xs : List α} {ys : List β}
    (h : List.Forall₂ (fun x y => Coincide T (f x) (f' y)) xs ys) :
    Coincide (List.Forall₂ T) (xs.mapM f) (ys.mapM f') := by
  induction h with
  | nil => exact pure .nil
  | cons hx _ ih =>
    rw [List.mapM_cons, List.mapM_cons]
    exact hx.bind fun hu => ih.bind fun hus => pure (.cons hu hus)

end Coincide

end Building

namespace Schema

open Building

theorem declaredType_located (fields : Assoc String Json) (location location' : String) :
    Jointly Eq (declaredType fields location) (declaredType fields location') := by
  unfold declaredType
  split
  · exact .ok rfl
  · dsimp only
    split
    · exact .ok rfl
    · exact .ok rfl
    · exact .error_left _ _
  · exact .ok rfl

theorem namedConstants_located (fields : Assoc String Json) (location location' : String) :
    Jointly Eq (namedConstants fields location) (namedConstants fields location') := by
  unfold namedConstants
  split
  · exact .ok rfl
  · split
    · exact .ok rfl
    · exact .error_left _ _

mutual

theorem coincide_classify (v : Json) (location location' : String) :
    Coincide Eq (classify v location) (classify v location') := by
  match v with
  | .obj fields =>
    rw [classify, classify]
    refine (Coincide.ofExcept (declaredType_located fields _ _)).next fun declared => ?_
    refine (coincide_classifyHints fields _ _).next fun hints => ?_
    exact (coincide_classifyKind fields _ _ _).next fun kind => .refl _
  | .null | .bool _ | .num _ | .str _ | .arr _ =>
    rw [classify, classify]
    · exact .refl _
    all_goals simp
termination_by (v.size, 0)
decreasing_by all_goals simp only [Json.size]; omega

theorem coincide_classifyHints (fields : Assoc String Json) (location location' : String) :
    Coincide Eq (classifyHints fields location) (classifyHints fields location') := by
  rw [classifyHints, classifyHints]
  refine Coincide.next ?_ fun definition => ?_
  · split
    · next v hv =>
      have hlt := size_lt_of_hint? hv
      exact (coincide_classify v _ _).map fun h => congrArg some h
    · exact .refl _
  refine Coincide.next ?_ fun arguments => ?_
  · split
    · next vs hvs =>
      have hlt := sizes_lt_of_hint? hvs
      exact coincide_classifyAll vs _ _ 0
    · exact .refl _
  exact (Coincide.ofExcept (namedConstants_located fields _ _)).next fun _ => .refl _
termination_by (Json.fieldSizes fields, 1)
decreasing_by all_goals omega

theorem coincide_classifyKind (fields : Assoc String Json) (declared : Option String)
    (location location' : String) :
    Coincide Eq (classifyKind fields declared location)
      (classifyKind fields declared location') := by
  rw [classifyKind, classifyKind]
  split
  · exact .refl _
  · split
    · exact (coincide_classifyObject fields _ _).map fun h => congrArg _ h
    · split
      · split
        · next v hv =>
          have hlt := Json.size_lt_of_get? hv
          exact (coincide_classify v _ _).next fun _ => .refl _
        · exact .refl _
      · split
        · exact .refl _
        · split
          · next how members hm =>
            have hlt := sizes_lt_of_combination? hm
            exact (coincide_classifyAll members _ _ 0).next fun _ => .refl _
          · exact .refl _
termination_by (Json.fieldSizes fields, 2)
decreasing_by all_goals omega

theorem coincide_classifyObject (fields : Assoc String Json) (location location' : String) :
    Coincide Eq (classifyObject fields location) (classifyObject fields location') := by
  rw [classifyObject, classifyObject]
  refine Coincide.next ?_ fun properties => ?_
  · split
    · next members hm =>
      have hlt := fieldSizes_lt_of_get? hm
      exact coincide_classifyMembers members _ _
    · exact .refl _
  refine Coincide.next ?_ fun allOf => ?_
  · split
    · next members hm =>
      have hlt := sizes_lt_of_items? hm
      exact coincide_classifyAll members _ _ 0
    · exact .refl _
  refine Coincide.next ?_ fun _ => .refl _
  split
  · exact .refl _
  · exact .refl _
  · exact .refl _
  · exact .refl _
  · next v _ _ _ hv =>
    have hlt := Json.size_lt_of_get? hv
    exact (coincide_classify v _ _).next fun _ => .refl _
termination_by (Json.fieldSizes fields, 1)
decreasing_by all_goals omega

theorem coincide_classifyMembers (members : List (String × Json)) (location location' : String) :
    Coincide Eq (classifyMembers members location) (classifyMembers members location') := by
  match members with
  | [] =>
    rw [classifyMembers, classifyMembers]
    exact .refl _
  | (name, v) :: rest =>
    rw [classifyMembers, classifyMembers]
    refine (coincide_classify v _ _).next fun _ => ?_
    exact (coincide_classifyMembers rest _ _).next fun _ => .refl _
termination_by (Json.fieldSizes members, 0)
decreasing_by all_goals simp only [Json.fieldSizes]; omega

theorem coincide_classifyAll (vs : List Json) (location location' : String) (index : Nat) :
    Coincide Eq (classifyAll vs location index) (classifyAll vs location' index) := by
  match vs with
  | [] =>
    rw [classifyAll, classifyAll]
    exact .refl _
  | v :: rest =>
    rw [classifyAll, classifyAll]
    refine (coincide_classify v _ _).next fun _ => ?_
    exact (coincide_classifyAll rest _ _ (index + 1)).next fun _ => .refl _
termination_by (Json.sizes vs, 0)
decreasing_by all_goals simp only [Json.sizes]; omega

end

/-- Schemas of which the same is read, at two places. -/
theorem ReadAlike.coincide {v v' : Json} (h : ReadAlike v v') (location location' : String) :
    Coincide Eq (classify v location) (classify v' location') := by
  rw [h location]
  exact coincide_classify v' location location'

end Schema

end TypedClient
