import TypedClient.Pointer

/-! How far references are followed. A chain of references arrives at a value that is none, or
breaks off at a reference that leads nowhere, or goes on for ever. Main statement: what following
gives for each of them, by the number of references that lead on. The bound counts the values that
are looked at, and the first of these is the one that following begins with: a chain of as many
references as the bound says is too long already, though its last value is found. -/

namespace TypedClient.Pointer

variable {root v w : Json} {n : Nat}

/-! ### Chains -/

/-- The value one reference further. -/
def hop? (root v : Json) : Option Json := (reference? v).bind (lookup root)

/-- The value a number of references further, all of which lead on. -/
def hops? (root : Json) : Nat → Json → Option Json
  | 0, v => some v
  | n + 1, v => (hop? root v).bind (hops? root n)

/-- After `n` references the chain arrives at a value that is no reference. -/
def Arrives (root v : Json) (n : Nat) (w : Json) : Prop :=
  hops? root n v = some w ∧ reference? w = none

/-- After `n` references the chain breaks off at one that leads nowhere. -/
def Breaks (root v : Json) (n : Nat) (reference : String) : Prop :=
  ∃ w, hops? root n v = some w ∧ reference? w = some reference ∧ lookup root reference = none

/-- All references of the chain lead on. -/
def Endless (root v : Json) : Prop := ∀ n, (hops? root n v).isSome

theorem hops?_add (m n : Nat) (v : Json) :
    hops? root (m + n) v = (hops? root m v).bind (hops? root n) := by
  induction m generalizing v with
  | zero => rw [Nat.zero_add, hops?, Option.bind_some]
  | succ m ih =>
    rw [Nat.succ_add, hops?, hops?, Option.bind_assoc]
    exact Option.bind_congr fun u _ => ih u

/-- A chain that has no value a number of references further has come to an end before. -/
theorem ends_of_hops?_eq_none (h : hops? root n v = none) :
    (∃ m w, Arrives root v m w) ∨ ∃ m reference, Breaks root v m reference := by
  induction n generalizing v with
  | zero => cases h
  | succ n ih =>
    cases hreference : reference? v with
    | none => exact .inl ⟨0, v, rfl, hreference⟩
    | some reference =>
      cases hlookup : lookup root reference with
      | none => exact .inr ⟨0, reference, v, rfl, hreference, hlookup⟩
      | some u =>
        have hhop : hop? root v = some u := by rw [hop?, hreference, Option.bind_some, hlookup]
        have hfurther (m : Nat) : hops? root (m + 1) v = hops? root m u := by
          rw [hops?, hhop, Option.bind_some]
        rw [hfurther] at h
        rcases ih h with ⟨m, w, hw, hend⟩ | ⟨m, lost, w, hw, hlost⟩
        · exact .inl ⟨m + 1, w, by rw [hfurther, hw], hend⟩
        · exact .inr ⟨m + 1, lost, w, by rw [hfurther, hw], hlost⟩

theorem ends_or_endless (root v : Json) :
    (∃ n w, Arrives root v n w) ∨ (∃ n reference, Breaks root v n reference) ∨ Endless root v := by
  by_cases hendless : Endless root v
  · exact .inr (.inr hendless)
  · obtain ⟨n, hn⟩ := Classical.not_forall.1 hendless
    rw [Option.not_isSome_iff_eq_none] at hn
    exact (ends_of_hops?_eq_none hn).imp_right .inl

/-! ### Following -/

/-- What following a chain that is too long gives. -/
def tooLong : Failure := .invalidDocument (.longReferenceChain maxHops)

/-- Each reference that leads on takes one of the values that may be looked at. -/
theorem followWithin_add (h : hops? root n v = some w) (k : Nat) :
    followWithin root (n + k) v = followWithin root k w := by
  induction n generalizing v with
  | zero => rw [Nat.zero_add, Option.some.inj h]
  | succ n ih =>
    obtain ⟨u, hu, h⟩ := Option.bind_eq_some_iff.1 h
    obtain ⟨reference, hreference, hlookup⟩ := Option.bind_eq_some_iff.1 hu
    rw [Nat.succ_add, followWithin, hreference]
    simp only [hlookup]
    exact ih h

/-- The value at the bound is not looked at. -/
theorem follow_of_maxHops (h : hops? root maxHops v = some w) : follow root v = .error tooLong :=
  followWithin_add h 0

/-- A value before the bound is looked at, and one beyond it is not reached. -/
theorem follow_of_hops (h : hops? root n v = some w) :
    follow root v =
      if n < maxHops then followWithin root (maxHops - n) w else .error tooLong := by
  split
  · next hn =>
    rw [← followWithin_add h (maxHops - n), Nat.add_sub_cancel' (Nat.le_of_lt hn)]
    rfl
  · next hn =>
    rw [← Nat.add_sub_cancel' (Nat.le_of_not_lt hn), hops?_add] at h
    obtain ⟨u, hu, -⟩ := Option.bind_eq_some_iff.1 h
    exact follow_of_maxHops hu

/-- One value more may be looked at as long as there are fewer references than the bound says. -/
theorem exists_left (hn : n < maxHops) : ∃ k, maxHops - n = k + 1 :=
  ⟨maxHops - n - 1, by omega⟩

theorem follow_of_arrives (h : Arrives root v n w) :
    follow root v = if n < maxHops then .ok w else .error tooLong := by
  rw [follow_of_hops h.1]
  refine ite_congr rfl (fun hn => ?_) fun _ => rfl
  obtain ⟨k, hk⟩ := exists_left hn
  rw [hk, followWithin, h.2]

theorem follow_of_breaks {reference : String} (h : Breaks root v n reference) :
    follow root v =
      if n < maxHops then .error (.unresolvedReference reference) else .error tooLong := by
  obtain ⟨w, hw, hreference, hlost⟩ := h
  rw [follow_of_hops hw]
  refine ite_congr rfl (fun hn => ?_) fun _ => rfl
  obtain ⟨k, hk⟩ := exists_left hn
  rw [hk, followWithin, hreference]
  simp only [hlost]

theorem follow_of_endless (h : Endless root v) : follow root v = .error tooLong := by
  obtain ⟨w, hw⟩ := Option.isSome_iff_exists.1 (h maxHops)
  exact follow_of_maxHops hw

/-- **Following gives the value that a chain arrives at, or the reference that it breaks off at, if
that is less than 32 references away, and calls every other chain too long.** -/
theorem follow_exact (root v : Json) :
    (∀ n w, Arrives root v n w →
      follow root v = if n < 32 then .ok w else .error tooLong) ∧
    (∀ n reference, Breaks root v n reference →
      follow root v = if n < 32 then .error (.unresolvedReference reference) else .error tooLong) ∧
    (Endless root v → follow root v = .error tooLong) ∧
    ((∃ n w, Arrives root v n w) ∨ (∃ n reference, Breaks root v n reference) ∨
      Endless root v) ∧
    tooLong.message = "invalid API document: reference chain longer than 32 hops" := by
  exact ⟨fun _ _ => follow_of_arrives, fun _ _ => follow_of_breaks, follow_of_endless,
    ends_or_endless root v, by decide +kernel⟩

/-- A reference to a member of the document. -/
def link (name : String) : Json := .obj [("$ref", .str ("#/" ++ name))]

/-- A chain that arrives, one that breaks off, and one that is endless. -/
def linked : Json :=
  .obj [("Limit", link "PageSize"), ("PageSize", .obj [("name", .str "limit")]),
    ("Lost", link "Missing"), ("Loop", link "Loop")]

theorem follow_exact_linked :
    (Arrives linked (link "Limit") 2 (.obj [("name", .str "limit")]) ∧
      follow linked (link "Limit") = .ok (.obj [("name", .str "limit")])) ∧
    (Breaks linked (link "Lost") 1 "#/Missing" ∧
      follow linked (link "Lost") = .error (.unresolvedReference "#/Missing")) ∧
    (Endless linked (link "Loop") ∧ follow linked (link "Loop") = .error tooLong) := by
  have harrives : Arrives linked (link "Limit") 2 (.obj [("name", .str "limit")]) :=
    ⟨by rfl, by rfl⟩
  have hbreaks : Breaks linked (link "Lost") 1 "#/Missing" :=
    ⟨link "Missing", by rfl, by rfl, by rfl⟩
  have hloop : hop? linked (link "Loop") = some (link "Loop") := by rfl
  have hendless : Endless linked (link "Loop") := fun n => by
    induction n with
    | zero => rfl
    | succ n ih => rwa [hops?, hloop, Option.bind_some]
  exact ⟨⟨harrives, (follow_exact linked _).1 2 _ harrives⟩,
    ⟨hbreaks, (follow_exact linked _).2.1 1 _ hbreaks⟩,
    ⟨hendless, (follow_exact linked _).2.2.1 hendless⟩⟩

/-- `n` members, each a reference to the next, and a value behind them. -/
def chainOf (n : Nat) : Json :=
  .obj (((List.range n).map fun i => (toString i, link (toString (i + 1)))) ++
    [(toString n, .obj [("name", .str "limit")])])

/-- A chain of 32 references, which is no longer than 32, is called too long. -/
theorem not_follow_of_arrives_at_bound :
    ¬ ∀ root v n w, Arrives root v n w → n ≤ 32 → follow root v = .ok w := by
  intro hclaim
  have hlast : (hops? (chainOf 31) 32 (link "0")).any (fun w => (reference? w).isNone) = true := by
    decide +kernel
  obtain ⟨w, hw, hend⟩ := (Option.any_eq_true _ _).1 hlast
  have hfollowed := hclaim (chainOf 31) (link "0") 32 w ⟨hw, Option.isNone_iff_eq_none.1 hend⟩
    (Nat.le_refl _)
  rw [follow_of_maxHops hw] at hfollowed
  cases hfollowed

end TypedClient.Pointer
