import Mathlib.Data.List.Forall2
import Mathlib.Data.List.Nodup
import Mathlib.Data.Option.Basic
import TypedClient.Assoc

/-! Containers that differ in what they hold only, place by place, where what they hold is
related; and lists that hold everything once. -/

namespace TypedClient

variable {α β γ γ' κ ε : Type} {R S : α → β → Prop}

theorem rel_imp {a : Option α} {b : Option β} (h : Option.Rel R a b)
    (hRS : ∀ x ∈ a.toList, ∀ y ∈ b.toList, R x y → S x y) : Option.Rel S a b := by
  cases h with
  | none => exact .none
  | some h => exact .some (hRS _ (.head _) _ (.head _) h)

theorem rel_refl {R : α → α → Prop} (h : ∀ a, R a a) (a : Option α) : Option.Rel R a a := by
  cases a with
  | none => exact .none
  | some a => exact .some (h a)

theorem bind_eq_of_rel {f : α → Option γ} {g : β → Option γ} {a : Option α} {b : Option β}
    (h : Option.Rel R a b) (hfg : ∀ {x y}, R x y → f x = g y) : a.bind f = b.bind g := by
  cases h with
  | none => rfl
  | some h => exact hfg h

theorem findSome?_rel {ι : Type} {f : ι → Option α} {g : ι → Option β} {xs : List ι}
    (h : ∀ x ∈ xs, Option.Rel R (f x) (g x)) : Option.Rel R (xs.findSome? f) (xs.findSome? g) := by
  induction xs with
  | nil => exact .none
  | cons x xs ih =>
    rw [List.forall_mem_cons] at h
    rw [List.findSome?_cons, List.findSome?_cons]
    have hfirst := h.1
    generalize f x = a, g x = b at hfirst
    cases hfirst with
    | none => exact ih h.2
    | some hab => exact .some hab

theorem toList_of_rel {a : Option α} {b : Option β} (h : Option.Rel R a b) :
    List.Forall₂ R a.toList b.toList := by
  cases h with
  | none => exact .nil
  | some h => exact .cons h .nil

theorem forall₂_imp {xs : List α} {ys : List β} (h : List.Forall₂ R xs ys)
    (hRS : ∀ x ∈ xs, ∀ y ∈ ys, R x y → S x y) : List.Forall₂ S xs ys := by
  induction h with
  | nil => exact .nil
  | cons hx _ ih =>
    refine .cons (hRS _ List.mem_cons_self _ List.mem_cons_self hx) (ih fun x hx y hy => ?_)
    exact hRS x (List.mem_cons_of_mem _ hx) y (List.mem_cons_of_mem _ hy)

theorem forall₂_comp {T : β → γ → Prop} {U : α → γ → Prop} {xs : List α} {ys : List β}
    {zs : List γ} (h : List.Forall₂ R xs ys) (h' : List.Forall₂ T ys zs)
    (hU : ∀ {x y z}, R x y → T y z → U x z) : List.Forall₂ U xs zs := by
  induction h generalizing zs with
  | nil =>
    cases h'
    exact .nil
  | cons hx _ ih =>
    cases h' with
    | cons hy hys => exact .cons (hU hx hy) (ih hys)

theorem map_eq_of_forall₂ {f : α → γ} {f' : β → γ} {xs : List α} {ys : List β}
    (h : List.Forall₂ R xs ys) (hf : ∀ x y, R x y → f x = f' y) : xs.map f = ys.map f' := by
  induction h with
  | nil => rfl
  | cons hx _ ih => rw [List.map_cons, List.map_cons, hf _ _ hx, ih]

theorem exists_of_mem_left {xs : List α} {ys : List β} (h : List.Forall₂ R xs ys) {x : α}
    (hx : x ∈ xs) : ∃ y ∈ ys, R x y := by
  induction h with
  | nil => exact absurd hx List.not_mem_nil
  | cons hR _ ih =>
    rcases List.mem_cons.1 hx with rfl | hx
    · exact ⟨_, List.mem_cons_self, hR⟩
    · obtain ⟨y, hy, hR⟩ := ih hx
      exact ⟨y, List.mem_cons_of_mem _ hy, hR⟩

theorem exists_of_mem_right {xs : List α} {ys : List β} (h : List.Forall₂ R xs ys) {y : β}
    (hy : y ∈ ys) : ∃ x ∈ xs, R x y := by
  induction h with
  | nil => exact absurd hy List.not_mem_nil
  | cons hR _ ih =>
    rcases List.mem_cons.1 hy with rfl | hy
    · exact ⟨_, List.mem_cons_self, hR⟩
    · obtain ⟨x, hx, hR⟩ := ih hy
      exact ⟨x, List.mem_cons_of_mem _ hx, hR⟩

/-- Related lists stay so when items are left out that are related to items left out. -/
theorem filter_of_forall₂ {p : α → Bool} {q : β → Bool} {xs : List α} {ys : List β}
    (h : List.Forall₂ R xs ys) (hpq : ∀ x y, R x y → p x = q y) :
    List.Forall₂ R (xs.filter p) (ys.filter q) :=
  List.rel_filter (fun x y hR => iff_of_eq (congrArg (· = true) (hpq x y hR))) h

/-- Each item of either list is related to one of the other. -/
def Covers (R : α → β → Prop) (xs : List α) (ys : List β) : Prop :=
  (∀ x ∈ xs, ∃ y ∈ ys, R x y) ∧ ∀ y ∈ ys, ∃ x ∈ xs, R x y

theorem Covers.imp {xs : List α} {ys : List β} (h : Covers R xs ys) (hRS : ∀ x y, R x y → S x y) :
    Covers S xs ys := by
  refine ⟨fun x hx => ?_, fun y hy => ?_⟩
  · obtain ⟨y, hy, hR⟩ := h.1 x hx
    exact ⟨y, hy, hRS x y hR⟩
  · obtain ⟨x, hx, hR⟩ := h.2 y hy
    exact ⟨x, hx, hRS x y hR⟩

theorem covers_of_forall₂ {xs : List α} {ys : List β} (h : List.Forall₂ R xs ys) :
    Covers R xs ys :=
  ⟨fun _ => exists_of_mem_left h, fun _ => exists_of_mem_right h⟩

theorem covers_of_perm {R : α → α → Prop} {xs ys : List α} (h : xs.Perm ys) (hR : ∀ x, R x x) :
    Covers R xs ys :=
  ⟨fun x hx => ⟨x, h.mem_iff.1 hx, hR x⟩, fun y hy => ⟨y, h.mem_iff.2 hy, hR y⟩⟩

theorem covers_flatten {xss : List (List α)} {yss : List (List β)}
    (h : List.Forall₂ (Covers R) xss yss) : Covers R xss.flatten yss.flatten := by
  constructor
  · intro x hx
    obtain ⟨xs, hxs, hx⟩ := List.mem_flatten.1 hx
    obtain ⟨ys, hys, hcovers⟩ := exists_of_mem_left h hxs
    obtain ⟨y, hy, hR⟩ := hcovers.1 x hx
    exact ⟨y, List.mem_flatten.2 ⟨ys, hys, hy⟩, hR⟩
  · intro y hy
    obtain ⟨ys, hys, hy⟩ := List.mem_flatten.1 hy
    obtain ⟨xs, hxs, hcovers⟩ := exists_of_mem_right h hys
    obtain ⟨x, hx, hR⟩ := hcovers.2 y hy
    exact ⟨x, List.mem_flatten.2 ⟨xs, hxs, hx⟩, hR⟩

theorem covers_filterMap_id {xs : List (Option α)} {ys : List (Option β)}
    (h : Covers (Option.Rel R) xs ys) : Covers R (xs.filterMap id) (ys.filterMap id) := by
  simp only [Covers, List.mem_filterMap, id_eq, exists_eq_right]
  constructor
  · intro x hx
    obtain ⟨y, hy, hR⟩ := h.1 (some x) hx
    cases hR with
    | some hR => exact ⟨_, hy, hR⟩
  · intro y hy
    obtain ⟨x, hx, hR⟩ := h.2 (some y) hy
    cases hR with
    | some hR => exact ⟨_, hx, hR⟩

/-- A relation of attempts that is kept where attempts are made one after the other. -/
structure Compositional (Q : ∀ {α β : Type}, (α → β → Prop) → Except ε α → Except ε β → Prop) :
    Prop where
  ok : ∀ {α β : Type} {R : α → β → Prop} {a : α} {b : β}, R a b → Q R (.ok a) (.ok b)
  bind : ∀ {α β γ γ' : Type} {R : α → β → Prop} {T : γ → γ' → Prop} {x : Except ε α}
    {y : Except ε β} {f : α → Except ε γ} {f' : β → Except ε γ'}, Q R x y →
    (∀ {a b}, R a b → Q T (f a) (f' b)) → Q T (x >>= f) (y >>= f')

/-- Two attempts that fail both, or give related values. -/
inductive ExceptAlike (R : α → β → Prop) : Except ε α → Except ε β → Prop
  | error (e e' : ε) : ExceptAlike R (.error e) (.error e')
  | ok {a : α} {b : β} (h : R a b) : ExceptAlike R (.ok a) (.ok b)

theorem ExceptAlike.imp {x : Except ε α} {y : Except ε β} (h : ExceptAlike R x y)
    (hRS : ∀ a b, R a b → S a b) : ExceptAlike S x y := by
  cases h with
  | error e e' => exact .error e e'
  | ok h => exact .ok (hRS _ _ h)

theorem ExceptAlike.ok_left {x : Except ε α} {y : Except ε β} (h : ExceptAlike R x y) {a : α}
    (hx : x = .ok a) : ∃ b, y = .ok b ∧ R a b := by
  subst hx
  cases h with
  | ok h => exact ⟨_, rfl, h⟩

theorem ExceptAlike.ok_right {x : Except ε α} {y : Except ε β} (h : ExceptAlike R x y) {b : β}
    (hy : y = .ok b) : ∃ a, x = .ok a ∧ R a b := by
  subst hy
  cases h with
  | ok h => exact ⟨_, rfl, h⟩

theorem ExceptAlike.bind {T : γ → γ' → Prop} {x : Except ε α} {y : Except ε β} {f : α → Except ε γ}
    {f' : β → Except ε γ'} (h : ExceptAlike R x y)
    (hf : ∀ {a b}, R a b → ExceptAlike T (f a) (f' b)) : ExceptAlike T (x >>= f) (y >>= f') := by
  cases h with
  | error e e' => exact .error e e'
  | ok h => exact hf h

theorem ExceptAlike.map {T : γ → γ' → Prop} {x : Except ε α} {y : Except ε β} {f : α → γ}
    {f' : β → γ'} (h : ExceptAlike R x y) (hf : ∀ {a b}, R a b → T (f a) (f' b)) :
    ExceptAlike T (x.map f) (y.map f') := by
  cases h with
  | error e e' => exact .error e e'
  | ok h => exact .ok (hf h)

theorem compositional_alike : Compositional fun {α β} R => @ExceptAlike α β ε R :=
  ⟨.ok, .bind⟩

/-- Two attempts that fail with the same error, or give related values. -/
inductive ExceptSame (R : α → β → Prop) : Except ε α → Except ε β → Prop
  | error (e : ε) : ExceptSame R (.error e) (.error e)
  | ok {a : α} {b : β} (h : R a b) : ExceptSame R (.ok a) (.ok b)

theorem ExceptSame.imp {x : Except ε α} {y : Except ε β} (h : ExceptSame R x y)
    (hRS : ∀ a b, R a b → S a b) : ExceptSame S x y := by
  cases h with
  | error e => exact .error e
  | ok h => exact .ok (hRS _ _ h)

/-- The values are what the attempts give. -/
theorem ExceptSame.gives {x : Except ε α} {y : Except ε β} (h : ExceptSame R x y) :
    ExceptSame (fun a b => R a b ∧ x = .ok a ∧ y = .ok b) x y := by
  cases h with
  | error e => exact .error e
  | ok h => exact .ok ⟨h, rfl, rfl⟩

theorem ExceptSame.bind {T : γ → γ' → Prop} {x : Except ε α} {y : Except ε β} {f : α → Except ε γ}
    {f' : β → Except ε γ'} (h : ExceptSame R x y)
    (hf : ∀ {a b}, R a b → ExceptSame T (f a) (f' b)) : ExceptSame T (x >>= f) (y >>= f') := by
  cases h with
  | error e => exact .error e
  | ok h => exact hf h

theorem ExceptSame.map {T : γ → γ' → Prop} {x : Except ε α} {y : Except ε β} {f : α → γ}
    {f' : β → γ'} (h : ExceptSame R x y) (hf : ∀ {a b}, R a b → T (f a) (f' b)) :
    ExceptSame T (x.map f) (y.map f') := by
  cases h with
  | error e => exact .error e
  | ok h => exact .ok (hf h)

theorem compositional_same : Compositional fun {α β} R => @ExceptSame α β ε R :=
  ⟨.ok, .bind⟩

/-- What two attempts give is related, when they both give something. -/
def Jointly (R : α → β → Prop) (x : Except ε α) (y : Except ε β) : Prop :=
  ∀ a b, x = .ok a → y = .ok b → R a b

namespace Jointly

variable {x : Except ε α} {y : Except ε β}

theorem ok {a : α} {b : β} (h : R a b) : Jointly R (.ok a : Except ε α) (.ok b : Except ε β) := by
  intro a b ha hb
  cases ha
  cases hb
  exact h

theorem error_left (e : ε) (y : Except ε β) : Jointly R (.error e : Except ε α) y := nofun

theorem error_right (x : Except ε α) (e : ε) : Jointly R x (.error e : Except ε β) := nofun

theorem imp (h : Jointly R x y) (hRS : ∀ a b, R a b → S a b) : Jointly S x y :=
  fun a b ha hb => hRS a b (h a b ha hb)

theorem bind {T : γ → γ' → Prop} {f : α → Except ε γ} {f' : β → Except ε γ'} (h : Jointly R x y)
    (hf : ∀ {a b}, R a b → Jointly T (f a) (f' b)) : Jointly T (x >>= f) (y >>= f') := by
  cases x with
  | error e => exact error_left e _
  | ok a =>
    cases y with
    | error e => exact error_right _ e
    | ok b => exact hf (h a b rfl rfl)

theorem map {T : γ → γ' → Prop} {f : α → γ} {f' : β → γ'} (h : Jointly R x y)
    (hf : ∀ {a b}, R a b → T (f a) (f' b)) :
    Jointly T (x.map f) (y.map f') := h.bind fun hab => .ok (hf hab)

/-- The values are what the attempts give. -/
theorem gives (h : Jointly R x y) : Jointly (fun a b => R a b ∧ x = .ok a ∧ y = .ok b) x y :=
  fun a b ha hb => ⟨h a b ha hb, ha, hb⟩

end Jointly

theorem compositional_jointly : Compositional fun {α β} R => @Jointly α β ε R :=
  ⟨.ok, .bind⟩

/-- Where the first attempt gives something, the second one gives something related, or it is too
late: it fails with an error of this kind. -/
inductive Leads (late : ε → Prop) (R : α → β → Prop) : Except ε α → Except ε β → Prop
  | error (e : ε) (y : Except ε β) : Leads late R (.error e) y
  | ok {a : α} {b : β} (h : R a b) : Leads late R (.ok a) (.ok b)
  | late (a : α) {e : ε} (h : late e) : Leads late R (.ok a) (.error e)

namespace Leads

variable {late : ε → Prop} {x : Except ε α} {y : Except ε β}

theorem imp (h : Leads late R x y) (hRS : ∀ a b, R a b → S a b) : Leads late S x y := by
  cases h with
  | error e => exact .error e y
  | ok h => exact .ok (hRS _ _ h)
  | late a h => exact .late a h

theorem of_late {e : ε} (x : Except ε α) (h : late e) : Leads late R x (.error e) := by
  cases x with
  | error e' => exact .error e' _
  | ok a => exact .late a h

theorem bind {T : γ → γ' → Prop} {f : α → Except ε γ} {f' : β → Except ε γ'} (h : Leads late R x y)
    (hf : ∀ {a b}, R a b → Leads late T (f a) (f' b)) : Leads late T (x >>= f) (y >>= f') := by
  cases h with
  | error e => exact .error e _
  | ok h => exact hf h
  | late a h => exact of_late (f a) h

theorem map {T : γ → γ' → Prop} {f : α → γ} {f' : β → γ'} (h : Leads late R x y)
    (hf : ∀ {a b}, R a b → T (f a) (f' b)) : Leads late T (x.map f) (y.map f') :=
  h.bind fun hab => .ok (hf hab)

/-- The values are what the attempts give. -/
theorem gives (h : Leads late R x y) :
    Leads late (fun a b => R a b ∧ x = .ok a ∧ y = .ok b) x y := by
  cases h with
  | error e => exact .error e y
  | ok h => exact .ok ⟨h, rfl, rfl⟩
  | late a h => exact .late a h

end Leads

theorem compositional_leads (late : ε → Prop) :
    Compositional fun {α β} R => @Leads α β ε late R :=
  ⟨.ok, .bind⟩

section Attempts

variable {f : α → Except ε γ} {f' : β → Except ε γ'} {xs : List α} {ys : List β} {T : γ → γ' → Prop}

theorem mapM_eq_ok {us : List γ} :
    xs.mapM f = .ok us ↔ List.Forall₂ (fun x u => f x = .ok u) xs us := by
  induction xs generalizing us with
  | nil =>
    rw [List.mapM_nil, List.forall₂_nil_left_iff]
    exact ⟨fun h => (Except.ok.inj h).symm, fun h => congrArg Except.ok h.symm⟩
  | cons x xs ih =>
    rw [List.mapM_cons, List.forall₂_cons_left_iff]
    cases hx : f x with
    | error e => exact ⟨nofun, fun ⟨_, _, h, _⟩ => nomatch h⟩
    | ok u =>
      cases hxs : xs.mapM f with
      | error e =>
        refine ⟨nofun, fun ⟨_, vs, _, h, _⟩ => ?_⟩
        rw [ih.2 h] at hxs
        cases hxs
      | ok vs =>
        constructor
        · rintro h
          cases h
          exact ⟨u, vs, rfl, ih.1 hxs, rfl⟩
        · rintro ⟨_, ws, hu, hws, rfl⟩
          cases hu
          rw [ih.2 hws] at hxs
          cases hxs
          rfl

theorem exists_of_mapM (h : ∀ x ∈ xs, ∃ u, f x = .ok u) : ∃ us, xs.mapM f = .ok us := by
  simp only [mapM_eq_ok]
  induction xs with
  | nil => exact ⟨[], .nil⟩
  | cons x xs ih =>
    obtain ⟨u, hu⟩ := h x List.mem_cons_self
    obtain ⟨us, hus⟩ := ih fun y hy => h y (List.mem_cons_of_mem x hy)
    exact ⟨u :: us, .cons hu hus⟩

/-- What all attempts fail with is what one of them fails with. -/
theorem exists_of_mapM_error {e : ε} (h : xs.mapM f = .error e) :
    ∃ x ∈ xs, f x = .error e := by
  induction xs with
  | nil =>
    rw [List.mapM_nil] at h
    cases h
  | cons x xs ih =>
    rw [List.mapM_cons] at h
    cases hx : f x with
    | error e' =>
      rw [hx] at h
      cases h
      exact ⟨x, List.mem_cons_self, hx⟩
    | ok u =>
      cases hxs : xs.mapM f with
      | error e' =>
        rw [hx, hxs] at h
        cases h
        obtain ⟨y, hy, hfails⟩ := ih hxs
        exact ⟨y, List.mem_cons_of_mem x hy, hfails⟩
      | ok us =>
        rw [hx, hxs] at h
        cases h

section Compositional

variable {Q : ∀ {α β : Type}, (α → β → Prop) → Except ε α → Except ε β → Prop}
  (hQ : Compositional Q)

include hQ

theorem mapM_of_compositional (h : List.Forall₂ (fun x y => Q T (f x) (f' y)) xs ys) :
    Q (List.Forall₂ T) (xs.mapM f) (ys.mapM f') := by
  induction h with
  | nil => exact hQ.ok .nil
  | cons hx _ ih =>
    rw [List.mapM_cons, List.mapM_cons]
    exact hQ.bind hx fun hu => hQ.bind ih fun hus => hQ.ok (.cons hu hus)

theorem foldlM_of_compositional {σ σ' : Type} {g : σ → α → Except ε σ} {g' : σ' → β → Except ε σ'}
    {S : σ → σ' → Prop} {s : σ} {s' : σ'} (h : List.Forall₂ R xs ys) (hs : S s s')
    (hstep : ∀ {s s' x y}, S s s' → R x y → Q S (g s x) (g' s' y)) :
    Q S (xs.foldlM g s) (ys.foldlM g' s') := by
  induction h generalizing s s' with
  | nil => exact hQ.ok hs
  | cons hx _ ih =>
    rw [List.foldlM_cons, List.foldlM_cons]
    exact hQ.bind (hstep hs hx) ih

end Compositional

theorem mapM_alike (h : List.Forall₂ (fun x y => ExceptAlike T (f x) (f' y)) xs ys) :
    ExceptAlike (List.Forall₂ T) (xs.mapM f) (ys.mapM f') :=
  mapM_of_compositional compositional_alike h

theorem mapM_same (h : List.Forall₂ (fun x y => ExceptSame T (f x) (f' y)) xs ys) :
    ExceptSame (List.Forall₂ T) (xs.mapM f) (ys.mapM f') :=
  mapM_of_compositional compositional_same h

theorem mapM_jointly (h : List.Forall₂ (fun x y => Jointly T (f x) (f' y)) xs ys) :
    Jointly (List.Forall₂ T) (xs.mapM f) (ys.mapM f') :=
  mapM_of_compositional compositional_jointly h

theorem mapM_leads {late : ε → Prop}
    (h : List.Forall₂ (fun x y => Leads late T (f x) (f' y)) xs ys) :
    Leads late (List.Forall₂ T) (xs.mapM f) (ys.mapM f') :=
  mapM_of_compositional (compositional_leads late) h

section Folds

variable {σ σ' : Type} {g : σ → α → Except ε σ} {g' : σ' → β → Except ε σ'} {S : σ → σ' → Prop}
  {s : σ} {s' : σ'}

theorem foldlM_alike (h : List.Forall₂ R xs ys) (hs : S s s')
    (hstep : ∀ {s s' x y}, S s s' → R x y → ExceptAlike S (g s x) (g' s' y)) :
    ExceptAlike S (xs.foldlM g s) (ys.foldlM g' s') :=
  foldlM_of_compositional compositional_alike h hs hstep

theorem foldlM_same (h : List.Forall₂ R xs ys) (hs : S s s')
    (hstep : ∀ {s s' x y}, S s s' → R x y → ExceptSame S (g s x) (g' s' y)) :
    ExceptSame S (xs.foldlM g s) (ys.foldlM g' s') :=
  foldlM_of_compositional compositional_same h hs hstep

theorem foldlM_jointly (h : List.Forall₂ R xs ys) (hs : S s s')
    (hstep : ∀ {s s' x y}, S s s' → R x y → Jointly S (g s x) (g' s' y)) :
    Jointly S (xs.foldlM g s) (ys.foldlM g' s') :=
  foldlM_of_compositional compositional_jointly h hs hstep

theorem foldlM_leads {late : ε → Prop} (h : List.Forall₂ R xs ys) (hs : S s s')
    (hstep : ∀ {s s' x y}, S s s' → R x y → Leads late S (g s x) (g' s' y)) :
    Leads late S (xs.foldlM g s) (ys.foldlM g' s') :=
  foldlM_of_compositional (compositional_leads late) h hs hstep

end Folds

/-- Attempts in another order. -/
theorem mapM_covers (h : Covers (fun x y => ExceptAlike T (f x) (f' y)) xs ys) :
    ExceptAlike (Covers T) (xs.mapM f) (ys.mapM f') := by
  obtain ⟨hleft, hright⟩ := h
  rcases hus : xs.mapM f with e | us <;> rcases hvs : ys.mapM f' with e' | vs
  · exact .error e e'
  · obtain ⟨us, hgives⟩ := exists_of_mapM (fun x hx => by
      obtain ⟨y, hy, hxy⟩ := hleft x hx
      obtain ⟨v, -, hv⟩ := exists_of_mem_left (mapM_eq_ok.1 hvs) hy
      obtain ⟨u, hu, -⟩ := hxy.ok_right hv
      exact ⟨u, hu⟩ : ∀ x ∈ xs, ∃ u, f x = .ok u)
    rw [hus] at hgives
    cases hgives
  · obtain ⟨vs, hgives⟩ := exists_of_mapM (fun y hy => by
      obtain ⟨x, hx, hxy⟩ := hright y hy
      obtain ⟨u, -, hu⟩ := exists_of_mem_left (mapM_eq_ok.1 hus) hx
      obtain ⟨v, hv, -⟩ := hxy.ok_left hu
      exact ⟨v, hv⟩ : ∀ y ∈ ys, ∃ v, f' y = .ok v)
    rw [hvs] at hgives
    cases hgives
  · refine .ok ⟨fun u hu => ?_, fun v hv => ?_⟩
    · obtain ⟨x, hx, hxu⟩ := exists_of_mem_right (mapM_eq_ok.1 hus) hu
      obtain ⟨y, hy, hxy⟩ := hleft x hx
      obtain ⟨v, hv, hyv⟩ := exists_of_mem_left (mapM_eq_ok.1 hvs) hy
      rw [hxu, hyv] at hxy
      cases hxy with
      | ok hT => exact ⟨v, hv, hT⟩
    · obtain ⟨y, hy, hyv⟩ := exists_of_mem_right (mapM_eq_ok.1 hvs) hv
      obtain ⟨x, hx, hxy⟩ := hright y hy
      obtain ⟨u, hu, hxu⟩ := exists_of_mem_left (mapM_eq_ok.1 hus) hx
      rw [hxu, hyv] at hxy
      cases hxy with
      | ok hT => exact ⟨u, hu, hT⟩

end Attempts

namespace Assoc

variable [DecidableEq κ] {m : Assoc κ α} {m' : Assoc κ β} {a : α} {b : β}

/-- Only the members whose keys are wanted are found. -/
theorem get?_filter (m : Assoc κ α) (wanted : κ → Bool) (key : κ) :
    get? (m.filter fun p => wanted p.1) key =
      if wanted key then get? m key else none := by
  induction m with
  | nil => exact (ite_self none).symm
  | cons p m ih =>
    obtain ⟨k, v⟩ := p
    rw [List.filter_cons]
    by_cases hk : k = key
    · subst hk
      cases hw : wanted k with
      | true => simp [get?]
      | false => simpa [hw] using ih
    · rw [get?, if_neg hk]
      split
      · rw [get?, if_neg hk, ih]
      · exact ih

/-- The same keys in the same order, with related values. -/
def Alike (R : α → β → Prop) : Assoc κ α → Assoc κ β → Prop :=
  List.Forall₂ fun p p' => p.1 = p'.1 ∧ R p.2 p'.2

namespace Alike

omit [DecidableEq κ] in
theorem imp (h : ∀ a b, R a b → S a b) (hm : Alike R m m') : Alike S m m' :=
  List.Forall₂.imp (fun _ _ hp => ⟨hp.1, h _ _ hp.2⟩) hm

omit [DecidableEq κ] in
theorem values (hm : Alike R m m') : List.Forall₂ R (Assoc.values m) (Assoc.values m') := by
  unfold Assoc.values
  rw [List.forall₂_map_left_iff, List.forall₂_map_right_iff]
  exact List.Forall₂.imp (fun _ _ hp => hp.2) hm

omit [DecidableEq κ] in
theorem keys (hm : Alike R m m') : Assoc.keys m = Assoc.keys m' :=
  map_eq_of_forall₂ hm fun _ _ hp => hp.1

theorem get? (hm : Alike R m m') (key : κ) :
    Option.Rel R (Assoc.get? m key) (Assoc.get? m' key) := by
  induction hm with
  | nil => exact .none
  | @cons p p' rest rest' hp _ ih =>
    obtain ⟨k, v⟩ := p
    obtain ⟨k', v'⟩ := p'
    obtain ⟨rfl, hv⟩ := hp
    simp only [Assoc.get?]
    split
    · exact .some hv
    · exact ih

theorem has (hm : Alike R m m') (key : κ) : Assoc.has m key = Assoc.has m' key := by
  have h := hm.get? key
  unfold Assoc.has
  generalize Assoc.get? m key = v, Assoc.get? m' key = v' at h
  cases h <;> rfl

theorem put (hm : Alike R m m') (key : κ) (h : R a b) :
    Alike R (Assoc.put m key a) (Assoc.put m' key b) := by
  induction hm with
  | nil => exact .cons ⟨rfl, h⟩ .nil
  | @cons p p' rest rest' hp hrest ih =>
    obtain ⟨k, v⟩ := p
    obtain ⟨k', v'⟩ := p'
    obtain ⟨rfl, hv⟩ := hp
    simp only [Assoc.put]
    split
    · exact .cons ⟨rfl, h⟩ hrest
    · exact .cons ⟨rfl, hv⟩ ih

theorem putAll {new : Assoc κ α} {new' : Assoc κ β} (hm : Alike R m m') (hn : Alike R new new') :
    Alike R (Assoc.putAll m new) (Assoc.putAll m' new') := by
  unfold Assoc.putAll
  induction hn generalizing m m' with
  | nil => exact hm
  | @cons p p' _ _ hp _ ih =>
    obtain ⟨k, v⟩ := p
    obtain ⟨k', v'⟩ := p'
    obtain ⟨rfl, hv⟩ := hp
    exact ih (hm.put k hv)

end Alike

omit [DecidableEq κ] in
theorem not_mem_keys_of_nodup {before after : Assoc κ α} {added : κ × α}
    (h : (keys (before ++ added :: after)).Nodup) : added.1 ∉ keys (before ++ after) := by
  rw [keys, List.map_append, List.map_cons, List.nodup_middle, ← List.map_append] at h
  exact (List.nodup_cons.1 h).1

/-- The second list has one member more, at some place. -/
inductive OneMore (R : α → β → Prop) (added : κ × β) : Assoc κ α → Assoc κ β → Prop
  | intro {before after : Assoc κ α} {before' after' : Assoc κ β} (hbefore : Alike R before before')
      (hafter : Alike R after after') :
      OneMore R added (before ++ after) (before' ++ added :: after')

namespace OneMore

variable {added : κ × β}

omit [DecidableEq κ] in
theorem imp (h : OneMore R added m m') (hRS : ∀ a b, R a b → S a b) : OneMore S added m m' := by
  cases h with
  | intro hbefore hafter => exact .intro (hbefore.imp hRS) (hafter.imp hRS)

theorem get?_added (h : OneMore R added m m') (hkeys : (keys m').Nodup) :
    Assoc.get? m' added.1 = some added.2 := by
  cases h
  exact get?_of_mem hkeys (List.mem_append_right _ List.mem_cons_self)

omit [DecidableEq κ] in
theorem not_mem_keys (h : OneMore R added m m') (hkeys : (keys m').Nodup) : added.1 ∉ keys m := by
  cases h with
  | intro hbefore hafter =>
    have hall : Alike R (_ ++ _) (_ ++ _) := List.rel_append hbefore hafter
    rw [hall.keys]
    exact not_mem_keys_of_nodup hkeys

omit [DecidableEq κ] in
/-- Without the new member the lists are alike. -/
theorem filter_ne [BEq κ] [LawfulBEq κ] (h : OneMore R added m m') (hkeys : (keys m').Nodup) :
    Alike R m (m'.filter fun p => p.1 != added.1) := by
  cases h with
  | @intro before after before' after' hbefore hafter =>
    have hkept : ∀ p ∈ before' ++ after', (p.1 != added.1) = true := fun p hp =>
      bne_iff_ne.2 fun heq => not_mem_keys_of_nodup hkeys (List.mem_map.2 ⟨p, hp, heq⟩)
    rw [List.filter_append, List.filter_cons, if_neg (by simp), ← List.filter_append,
      List.filter_eq_self.2 hkept]
    exact List.rel_append hbefore hafter

end OneMore

end Assoc

/-! ### Lists without repetition -/

theorem nodup_eraseDups {α : Type} [BEq α] [LawfulBEq α] (xs : List α) : xs.eraseDups.Nodup := by
  generalize hn : xs.length = n
  induction n using Nat.strongRecOn generalizing xs with
  | _ n ih =>
    cases xs with
    | nil => exact .nil
    | cons x xs =>
      rw [List.eraseDups_cons, List.nodup_cons]
      have hshorter := List.length_filter_le (fun y => !y == x) xs
      refine ⟨fun hx => ?_, ih _ (by simp only [List.length_cons] at hn; omega) _ rfl⟩
      simp [List.mem_eraseDups] at hx

end TypedClient
