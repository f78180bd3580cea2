import Mathlib.Data.List.Induction
import TypedClient.Proofs.Alike

/-! Maps made of pairs of which several may have the same key. Keys stand in the order in which they
first occur among the pairs, and each has the value of the last pair with it. -/

namespace TypedClient

namespace Assoc

variable {κ α : Type} [DecidableEq κ] {m new pairs : List (κ × α)} {key : κ} {value : α}

/-- The last of the pairs with this key has this value. -/
def IsLast (pairs : List (κ × α)) (key : κ) (value : α) : Prop :=
  ∃ before after, pairs = before ++ (key, value) :: after ∧ key ∉ keys after

theorem ofPairs_concat (pairs : List (κ × α)) (p : κ × α) :
    ofPairs (pairs ++ [p]) = put (ofPairs pairs) p.1 p.2 := by
  rw [ofPairs, putAll, List.foldl_concat]
  rfl

/-- Keys stand in the order in which they first occur. -/
theorem keys_ofPairs [BEq κ] [LawfulBEq κ] (pairs : List (κ × α)) :
    keys (ofPairs pairs) = (keys pairs).eraseDups := by
  induction pairs using List.reverseRecOn with
  | nil => rfl
  | append_singleton pairs p ih =>
    have hkeys : keys (pairs ++ [p]) = keys pairs ++ [p.1] := List.map_append
    rw [ofPairs_concat, keys_put, ih, hkeys, List.eraseDups_append]
    by_cases hp : p.1 ∈ keys pairs
    · simp [hp, List.removeAll]
    · simp [hp, List.removeAll, List.eraseDups_cons]

theorem get?_putAll (m new : List (κ × α)) (key : κ) :
    get? (putAll m new) key = (get? new.reverse key).or (get? m key) := by
  induction new generalizing m with
  | nil => rfl
  | cons p new ih =>
    rw [putAll, List.foldl_cons, ← putAll, ih, get?_put, List.reverse_cons, get?_append,
      Option.or_assoc]
    congr 1
    obtain ⟨k, v⟩ := p
    rw [get?]
    split <;> rfl

theorem get?_eq_some_iff {m : List (κ × α)} : get? m key = some value ↔
    ∃ before after, m = before ++ (key, value) :: after ∧ key ∉ keys before := by
  induction m with
  | nil => simp
  | cons p m ih =>
    obtain ⟨k, v⟩ := p
    rw [get?]
    by_cases hk : k = key
    · subst hk
      rw [if_pos rfl]
      constructor
      · rintro ⟨⟩
        exact ⟨[], m, rfl, List.not_mem_nil⟩
      · rintro ⟨before, after, hm, hbefore⟩
        cases before with
        | nil =>
          cases hm
          rfl
        | cons q before =>
          cases hm
          exact absurd List.mem_cons_self hbefore
    · rw [if_neg hk, ih]
      constructor
      · rintro ⟨before, after, rfl, hbefore⟩
        exact ⟨(k, v) :: before, after, rfl, by simpa [keys, Ne.symm hk] using hbefore⟩
      · rintro ⟨before, after, hm, hbefore⟩
        cases before with
        | nil =>
          cases hm
          exact absurd rfl hk
        | cons q before =>
          cases hm
          exact ⟨before, after, rfl, fun hmem => hbefore (List.mem_cons_of_mem _ hmem)⟩

/-- Each key has the value of the last pair with it. -/
theorem get?_ofPairs : get? (ofPairs pairs) key = some value ↔ IsLast pairs key value := by
  rw [ofPairs, get?_putAll, get?_nil, Option.or_none, get?_eq_some_iff]
  constructor
  · rintro ⟨before, after, hpairs, hbefore⟩
    refine ⟨after.reverse, before.reverse, ?_, by simpa [keys] using hbefore⟩
    simpa using congrArg List.reverse hpairs
  · rintro ⟨before, after, rfl, hafter⟩
    exact ⟨after.reverse, before.reverse, by simp, by simpa [keys] using hafter⟩

theorem nodup_keys_ofPairs (pairs : List (κ × α)) : (keys (ofPairs pairs)).Nodup := by
  rw [keys_ofPairs]
  exact nodup_eraseDups _

theorem mem_ofPairs {p : κ × α} : p ∈ ofPairs pairs ↔ IsLast pairs p.1 p.2 :=
  ⟨fun hp => get?_ofPairs.1 (get?_of_mem (nodup_keys_ofPairs pairs) hp),
    fun hp => mem_of_get? (get?_ofPairs.2 hp)⟩

theorem exists_isLast (h : key ∈ keys pairs) : ∃ value, IsLast pairs key value := by
  rw [← List.mem_eraseDups, ← keys_ofPairs] at h
  obtain ⟨p, hp, rfl⟩ := List.mem_map.1 h
  exact ⟨p.2, mem_ofPairs.1 hp⟩

end Assoc

end TypedClient
