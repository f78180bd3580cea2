/-! Maps that remember the order in which their keys were first put. Putting a key again replaces
its value where it stands, so that `keys` grows at the end only. -/

namespace TypedClient

/-- Pairs of distinct keys and their values, oldest key first. -/
abbrev Assoc (κ α : Type) := List (κ × α)

namespace Assoc

variable {κ α : Type} [DecidableEq κ]

def get? : Assoc κ α → κ → Option α
  | [], _ => none
  | (k, v) :: m, key => if k = key then some v else get? m key

def has (m : Assoc κ α) (key : κ) : Bool := (get? m key).isSome

def put : Assoc κ α → κ → α → Assoc κ α
  | [], key, value => [(key, value)]
  | (k, v) :: m, key, value =>
    if k = key then (key, value) :: m else (k, v) :: put m key value

/-- Puts every pair of `new`, in order. -/
def putAll (m new : Assoc κ α) : Assoc κ α := new.foldl (fun m p => put m p.1 p.2) m

def ofPairs (pairs : List (κ × α)) : Assoc κ α := putAll [] pairs

/-- Changes the value under `key`, which is `fresh` when there is none. -/
def modify (m : Assoc κ α) (key : κ) (fresh : α) (f : α → α) : Assoc κ α :=
  put m key (f ((get? m key).getD fresh))

def keys (m : Assoc κ α) : List κ := m.map Prod.fst

def values (m : Assoc κ α) : List α := m.map Prod.snd

@[simp] theorem get?_nil (key : κ) : get? ([] : Assoc κ α) key = none := rfl

theorem get?_put (m : Assoc κ α) (key key' : κ) (value : α) :
    get? (put m key value) key' = if key = key' then some value else get? m key' := by
  induction m with
  | nil => rfl
  | cons p m ih =>
    obtain ⟨k, v⟩ := p
    by_cases h : k = key
    · subst h; by_cases h' : k = key' <;> simp [put, get?, h']
    · by_cases h' : k = key'
      · subst h'
        rw [put, if_neg h, get?, if_pos rfl, get?, if_pos rfl, if_neg (fun e => h e.symm)]
      · rw [put, if_neg h, get?, if_neg h', ih, get?, if_neg h']

theorem get?_put_self (m : Assoc κ α) (key : κ) (value : α) :
    get? (put m key value) key = some value :=
  (get?_put m key key value).trans (if_pos rfl)

theorem get?_put_of_ne {key key' : κ} (h : key ≠ key') (m : Assoc κ α) (value : α) :
    get? (put m key value) key' = get? m key' :=
  (get?_put m key key' value).trans (if_neg h)

/-- A key that is there keeps its place, a new one goes to the end. -/
theorem keys_put (m : Assoc κ α) (key : κ) (value : α) :
    keys (put m key value) = if key ∈ keys m then keys m else keys m ++ [key] := by
  induction m with
  | nil => rfl
  | cons p m ih =>
    obtain ⟨k, v⟩ := p
    by_cases h : k = key
    · subst h; simp [put, keys]
    · have hne : key ≠ k := fun e => h e.symm
      have hk : keys ((k, v) :: m) = k :: keys m := rfl
      have hp : keys (put ((k, v) :: m) key value) = k :: keys (put m key value) := by
        rw [put, if_neg h]; rfl
      rw [hp, hk, ih]
      by_cases hm : key ∈ keys m
      · rw [if_pos hm, if_pos (List.mem_cons_of_mem k hm)]
      · rw [if_neg hm, if_neg fun e => (List.mem_cons.1 e).elim hne hm, List.cons_append]

theorem mem_keys_put {m : Assoc κ α} {key k : κ} {value : α} :
    k ∈ keys (put m key value) ↔ k ∈ keys m ∨ k = key := by
  rw [keys_put]
  split
  · next hmem => exact ⟨.inl, fun h => h.elim id fun h => h ▸ hmem⟩
  · rw [List.mem_append, List.mem_singleton]

theorem mem_keys_putAll {m new : Assoc κ α} {k : κ} :
    k ∈ keys (putAll m new) ↔ k ∈ keys m ∨ k ∈ keys new := by
  induction new generalizing m with
  | nil => exact (or_iff_left List.not_mem_nil).symm
  | cons p new ih =>
    have hkeys : keys (p :: new) = p.1 :: keys new := rfl
    rw [putAll, List.foldl_cons, ← putAll, ih, mem_keys_put, hkeys, List.mem_cons, or_assoc]

theorem mem_of_get? {m : Assoc κ α} {key : κ} {value : α} (h : get? m key = some value) :
    (key, value) ∈ m := by
  induction m with
  | nil => simp at h
  | cons p m ih =>
    obtain ⟨k, v⟩ := p
    rw [get?] at h
    split at h
    · next hk => cases h; subst hk; exact List.mem_cons_self
    · exact List.mem_cons_of_mem _ (ih h)

theorem get?_eq_none_iff {m : Assoc κ α} {key : κ} : get? m key = none ↔ key ∉ keys m := by
  induction m with
  | nil => simp [keys]
  | cons p m ih =>
    obtain ⟨k, v⟩ := p
    have hk : keys ((k, v) :: m) = k :: keys m := rfl
    by_cases h : k = key
    · subst h; simp [get?, hk]
    · rw [get?, if_neg h, ih, hk, List.mem_cons, not_or]
      exact ⟨fun hm => ⟨fun e => h e.symm, hm⟩, fun hm => hm.2⟩

/-- A new key goes to the end. -/
theorem put_of_get?_none {m : Assoc κ α} {key : κ} (h : get? m key = none) (value : α) :
    put m key value = m ++ [(key, value)] := by
  induction m with
  | nil => rfl
  | cons p m ih =>
    obtain ⟨k, v⟩ := p
    rw [get?] at h
    split at h
    · cases h
    · next hk => rw [put, if_neg hk, ih h, List.cons_append]

/-- A key that is there has its value replaced where it stands. -/
theorem put_of_get?_some {m : Assoc κ α} {key : κ} {old : α} (h : get? m key = some old) :
    ∃ before after, m = before ++ (key, old) :: after ∧
      ∀ value, put m key value = before ++ (key, value) :: after := by
  induction m with
  | nil => simp at h
  | cons p m ih =>
    obtain ⟨k, v⟩ := p
    rw [get?] at h
    split at h
    · next hk =>
      cases h; subst hk
      exact ⟨[], m, rfl, fun value => by rw [put, if_pos rfl]; rfl⟩
    · next hk =>
      obtain ⟨before, after, hm, hput⟩ := ih h
      refine ⟨(k, v) :: before, after, by rw [hm]; rfl, fun value => ?_⟩
      rw [put, if_neg hk, hput, List.cons_append]

/-- Distinct keys stay distinct. -/
theorem nodup_keys_put {m : Assoc κ α} (h : (keys m).Nodup) (key : κ) (value : α) :
    (keys (put m key value)).Nodup := by
  rw [keys_put]
  split
  · exact h
  · next hnew =>
    refine List.nodup_append.2 ⟨h, by simp, fun a ha b hb => ?_⟩
    rw [List.mem_singleton.1 hb]
    rintro rfl
    exact hnew ha

/-- Where keys are distinct, each pair is found under its key. -/
theorem get?_of_mem {m : Assoc κ α} (h : (keys m).Nodup) {key : κ} {value : α}
    (hm : (key, value) ∈ m) : get? m key = some value := by
  induction m with
  | nil => exact absurd hm List.not_mem_nil
  | cons p m ih =>
    obtain ⟨k, v⟩ := p
    obtain ⟨hfirst, hrest⟩ := List.nodup_cons.1 h
    rw [get?]
    rcases List.mem_cons.1 hm with heq | hm
    · cases heq
      exact if_pos rfl
    · have hne : k ≠ key := by
        rintro rfl
        exact hfirst (List.mem_map.2 ⟨_, hm, rfl⟩)
      rw [if_neg hne]
      exact ih hrest hm

theorem get?_append (m n : Assoc κ α) (key : κ) :
    get? (m ++ n) key = (get? m key).or (get? n key) := by
  induction m with
  | nil => rfl
  | cons p m ih =>
    obtain ⟨k, v⟩ := p
    rw [List.cons_append, get?, get?]
    split
    · rfl
    · exact ih

/-- Where keys are distinct, their order does not matter. -/
theorem get?_of_perm {m m' : Assoc κ α} (h : m.Perm m') (hm : (keys m).Nodup) (key : κ) :
    get? m key = get? m' key := by
  have hm' : (keys m').Nodup := (h.map Prod.fst).nodup_iff.1 hm
  cases hv : get? m key with
  | some v => exact (get?_of_mem hm' (h.mem_iff.1 (mem_of_get? hv))).symm
  | none =>
    cases hv' : get? m' key with
    | none => rfl
    | some v =>
      rw [get?_of_mem hm (h.mem_iff.2 (mem_of_get? hv'))] at hv
      cases hv

theorem mem_put {m : Assoc κ α} {key : κ} {value : α} {p : κ × α} (h : p ∈ put m key value) :
    p = (key, value) ∨ p ∈ m := by
  induction m with
  | nil => exact .inl (List.mem_singleton.1 h)
  | cons q m ih =>
    obtain ⟨k, w⟩ := q
    rw [put] at h
    split at h
    · exact (List.mem_cons.1 h).imp id fun h => List.mem_cons_of_mem (k, w) h
    · rcases List.mem_cons.1 h with rfl | h
      · exact .inr List.mem_cons_self
      · exact (ih h).imp id fun h => List.mem_cons_of_mem (k, w) h

theorem mem_values_put {m : Assoc κ α} {key : κ} {value v : α} (h : v ∈ values (put m key value)) :
    v = value ∨ v ∈ values m := by
  obtain ⟨p, hp, rfl⟩ := List.mem_map.1 h
  rcases mem_put hp with rfl | hp
  · exact .inl rfl
  · exact .inr (List.mem_map.2 ⟨p, hp, rfl⟩)

theorem mem_values_putAll {m new : Assoc κ α} {v : α} (h : v ∈ values (putAll m new)) :
    v ∈ values m ∨ v ∈ values new := by
  induction new generalizing m with
  | nil => exact .inl h
  | cons p new ih =>
    obtain ⟨k, w⟩ := p
    rcases ih (m := put m k w) h with h | h
    · rcases mem_values_put h with rfl | h
      · exact .inr List.mem_cons_self
      · exact .inl h
    · exact .inr (List.mem_cons_of_mem w h)

end Assoc

end TypedClient
