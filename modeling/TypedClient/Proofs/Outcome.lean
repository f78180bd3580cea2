import Mathlib.Data.List.Forall2
import TypedClient.Failure

/-! Running a computation that keeps a state and may fail. What was done before a failure stays in
the state, so a run always ends in a state, whether it gives a value or not. -/

namespace TypedClient

variable {σ ε α β : Type}

/-- A sequence without a state gives a value when both of its parts do. -/
theorem except_bind_eq_ok {x : Except ε α} {f : α → Except ε β} {b : β} :
    x >>= f = .ok b ↔ ∃ a, x = .ok a ∧ f a = .ok b := by
  cases x with
  | error e => exact ⟨nofun, fun ⟨_, h, _⟩ => nomatch h⟩
  | ok a => exact ⟨fun h => ⟨a, rfl, h⟩, fun ⟨_, rfl, h⟩ => h⟩

theorem except_map_eq_ok {x : Except ε α} {f : α → β} {b : β} :
    f <$> x = .ok b ↔ ∃ a, x = .ok a ∧ f a = b := by
  cases x with
  | error e => exact ⟨nofun, fun ⟨_, h, _⟩ => nomatch h⟩
  | ok a => exact ⟨fun h => ⟨a, rfl, Except.ok.inj h⟩, fun ⟨_, h, hb⟩ => by cases h; rw [← hb]; rfl⟩

/-- What a computation gives from a state, and the state that it leaves behind. -/
def outcome (m : ExceptT Failure (StateM σ) α) (s : σ) : Except Failure α × σ := m.run.run s

section Steps

variable (s t : σ)

@[simp] theorem outcome_pure (a : α) :
    outcome (pure a : ExceptT Failure (StateM σ) α) s = (.ok a, s) := rfl

@[simp] theorem outcome_get : outcome (get : ExceptT Failure (StateM σ) σ) s = (.ok s, s) := rfl

theorem outcome_bind (m : ExceptT Failure (StateM σ) α) (f : α → ExceptT Failure (StateM σ) β) :
    outcome (m >>= f) s = match outcome m s with
      | (.ok a, u) => outcome (f a) u
      | (.error e, u) => (.error e, u) := by
  change (match m.run.run s with
    | (a, u) => (ExceptT.bindCont f a).run u) = match m.run.run s with
      | (.ok a, u) => outcome (f a) u
      | (.error e, u) => (.error e, u)
  rcases m.run.run s with ⟨_ | _, _⟩ <;> rfl

/-- Mapping what a computation gives leaves its state as it is. -/
theorem outcome_map (m : ExceptT Failure (StateM σ) α) (f : α → β) :
    outcome (f <$> m) s = ((outcome m s).1.map f, (outcome m s).2) := by
  rw [map_eq_pure_bind, outcome_bind]
  rcases outcome m s with ⟨_ | _, _⟩ <;> rfl

theorem outcome_tryCatch (m : ExceptT Failure (StateM σ) α)
    (handle : Failure → ExceptT Failure (StateM σ) α) :
    outcome (tryCatch m handle) s = match outcome m s with
      | (.ok a, u) => (.ok a, u)
      | (.error e, u) => outcome (handle e) u := by
  unfold outcome
  rw [ExceptT.run_tryCatch, StateT.run_bind]
  generalize m.run.run s = run
  rcases run with ⟨_ | _, _⟩ <;> rfl

/-- A failure that is observed does not end what follows. -/
theorem outcome_observing (m : ExceptT Failure (StateM σ) α) :
    outcome (observing m) s = (.ok (outcome m s).1, (outcome m s).2) := by
  unfold observing
  rw [outcome_tryCatch, outcome_bind]
  rcases outcome m s with ⟨_ | _, _⟩ <;> rfl

theorem outcome_ofExcept (x : Except Failure α) :
    outcome (MonadExcept.ofExcept x : ExceptT Failure (StateM σ) α) s = (x, s) := by
  cases x <;> rfl

variable {s t}

/-- A sequence gives a value when both of its parts do. -/
theorem outcome_bind_eq_ok {m : ExceptT Failure (StateM σ) α}
    {f : α → ExceptT Failure (StateM σ) β} {b : β} :
    outcome (m >>= f) s = (.ok b, t) ↔
      ∃ a u, outcome m s = (.ok a, u) ∧ outcome (f a) u = (.ok b, t) := by
  rw [outcome_bind]
  constructor
  · intro h
    split at h
    · next a u hm => exact ⟨a, u, hm, h⟩
    · simp at h
  · rintro ⟨a, u, hm, hf⟩
    rw [hm]; exact hf

/-- What is given for a list is what is given for its items, one after the other. -/
theorem forall₂_of_outcome_mapM {f : α → ExceptT Failure (StateM σ) β} {xs : List α} {ys : List β}
    (h : outcome (xs.mapM f) s = (.ok ys, t)) :
    List.Forall₂ (fun x y => ∃ s t, outcome (f x) s = (.ok y, t)) xs ys := by
  induction xs generalizing s ys with
  | nil =>
    rw [List.mapM_nil, outcome_pure] at h
    cases h
    exact .nil
  | cons x xs ih =>
    rw [List.mapM_cons] at h
    obtain ⟨y, u, hy, h⟩ := outcome_bind_eq_ok.1 h
    obtain ⟨zs, v, hzs, h⟩ := outcome_bind_eq_ok.1 h
    rw [outcome_pure] at h
    cases h
    exact .cons ⟨s, u, hy⟩ (ih hzs)

/-- Sequences agree when their second parts do on every value that the first part gives. -/
theorem bind_congr_of_outcome {m : ExceptT Failure (StateM σ) α}
    {f g : α → ExceptT Failure (StateM σ) β}
    (h : ∀ s a t, outcome m s = (.ok a, t) → f a = g a) : m >>= f = m >>= g := by
  funext s
  show outcome (m >>= f) s = outcome (m >>= g) s
  rw [outcome_bind, outcome_bind]
  split
  · next a t hm => rw [h s a t hm]
  · rfl

end Steps

end TypedClient
