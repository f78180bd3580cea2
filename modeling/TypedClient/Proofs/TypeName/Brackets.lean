import Mathlib.Data.List.Basic
import TypedClient.TypeName

/-! Brackets that match, told by counting: no beginning of the text closes more of them than it
opens, and the whole text closes as many as it opens. What stands around a text and has no brackets
does not matter, and a text matches when the pieces between its commas do. -/

namespace TypedClient

namespace TypeName

/-- The brackets of a text match: none is closed before it is opened, and all are closed. -/
structure Matched (cs : List Char) : Prop where
  opened : ∀ p, p <+: cs → p.countP isCloser ≤ p.countP isOpener
  closed : cs.countP isCloser = cs.countP isOpener

def isBracket (c : Char) : Bool := isOpener c || isCloser c

theorem isCloser_of_isOpener {c : Char} (h : isOpener c = true) : isCloser c = false := by
  simp only [isOpener, Bool.or_eq_true, decide_eq_true_eq] at h
  rcases h with rfl | rfl <;> rfl

/-! ### Counting -/

/-- Reading one more character from a depth leads to a depth again. -/
theorem balancedFrom_cons {depth : Nat} {c : Char} {cs : List Char} :
    balancedFrom depth (c :: cs) = true ↔
      ∃ next : Nat, depthAfter depth c = next ∧ balancedFrom next cs = true := by
  rw [balancedFrom.eq_def, depthAfter]
  dsimp only
  split
  · exact ⟨fun h => ⟨depth + 1, rfl, h⟩, fun ⟨next, hnext, h⟩ => by
      have heq : next = depth + 1 := by omega
      rwa [← heq]⟩
  · split
    · cases depth with
      | zero => exact ⟨nofun, fun ⟨next, hnext, _⟩ => by omega⟩
      | succ depth =>
        exact ⟨fun h => ⟨depth, by omega, h⟩, fun ⟨next, hnext, h⟩ => by
          have heq : next = depth := by omega
          rwa [← heq]⟩
    · exact ⟨fun h => ⟨depth, rfl, h⟩, fun ⟨next, hnext, h⟩ => by
        have heq : next = depth := by omega
        rwa [← heq]⟩

/-- The depth after a text. -/
def depthAfterAll (depth : Int) (cs : List Char) : Int :=
  depth + cs.countP isOpener - cs.countP isCloser

@[simp] theorem depthAfterAll_nil (depth : Int) : depthAfterAll depth [] = depth := by
  simp [depthAfterAll]

theorem depthAfterAll_cons (depth : Int) (c : Char) (cs : List Char) :
    depthAfterAll depth (c :: cs) = depthAfterAll (depthAfter depth c) cs := by
  unfold depthAfterAll depthAfter
  rw [List.countP_cons, List.countP_cons]
  by_cases ho : isOpener c = true
  · simp only [ho, isCloser_of_isOpener ho, if_true]
    push_cast
    simp
    omega
  · by_cases hc : isCloser c = true
    · simp only [ho, hc, if_true]
      push_cast
      simp
      omega
    · simp [ho, hc]

theorem balancedFrom_iff {depth : Nat} {cs : List Char} :
    balancedFrom depth cs = true ↔
      (∀ p, p <+: cs → 0 ≤ depthAfterAll depth p) ∧ depthAfterAll depth cs = 0 := by
  induction cs generalizing depth with
  | nil => simp [balancedFrom, List.prefix_nil]
  | cons c cs ih =>
    rw [balancedFrom_cons, depthAfterAll_cons]
    constructor
    · rintro ⟨next, hnext, h⟩
      rw [hnext]
      refine ⟨fun p hp => ?_, (ih.1 h).2⟩
      rcases List.prefix_cons_iff.1 hp with rfl | ⟨q, rfl, hq⟩
      · simp
      · rw [depthAfterAll_cons, hnext]
        exact (ih.1 h).1 q hq
    · rintro ⟨hbelow, hall⟩
      have hstep : ∀ p, p <+: cs → 0 ≤ depthAfterAll (depthAfter depth c) p := fun p hp => by
        rw [← depthAfterAll_cons]
        exact hbelow _ (List.prefix_cons_iff.2 (.inr ⟨p, rfl, hp⟩))
      obtain ⟨next, hnext⟩ := Int.eq_ofNat_of_zero_le (by simpa using hstep [] List.nil_prefix)
      rw [hnext] at hstep hall
      exact ⟨next, hnext, ih.2 ⟨hstep, hall⟩⟩

theorem balanced_iff {cs : List Char} : balanced cs = true ↔ Matched cs := by
  rw [balanced, balancedFrom_iff]
  constructor
  · rintro ⟨hbelow, hall⟩
    refine ⟨fun p hp => ?_, ?_⟩
    · have hdepth := hbelow p hp
      unfold depthAfterAll at hdepth
      omega
    · unfold depthAfterAll at hall
      omega
  · rintro ⟨hopened, hclosed⟩
    refine ⟨fun p hp => ?_, ?_⟩
    · have hdepth := hopened p hp
      unfold depthAfterAll
      omega
    · unfold depthAfterAll
      omega

instance (cs : List Char) : Decidable (Matched cs) := decidable_of_iff _ balanced_iff

/-! ### Texts put together -/

theorem matched_of_plain {cs : List Char} (h : ∀ c ∈ cs, isBracket c = false) : Matched cs := by
  have hnone : ∀ p : List Char, p ⊆ cs → p.countP isCloser = 0 ∧ p.countP isOpener = 0 := by
    intro p hp
    simp only [List.countP_eq_zero]
    simp only [isBracket, Bool.or_eq_false_iff] at h
    exact ⟨fun c hc => Bool.eq_false_iff.1 (h c (hp hc)).2,
      fun c hc => Bool.eq_false_iff.1 (h c (hp hc)).1⟩
  refine ⟨fun p hp => ?_, ?_⟩
  · rw [(hnone p hp.subset).1]
    exact Nat.zero_le _
  · rw [(hnone cs (List.Subset.refl cs)).1, (hnone cs (List.Subset.refl cs)).2]

namespace Matched

variable {xs ys : List Char}

theorem append (hx : Matched xs) (hy : Matched ys) : Matched (xs ++ ys) := by
  refine ⟨fun p ⟨t, ht⟩ => ?_, ?_⟩
  · rcases List.append_eq_append_iff.1 ht with ⟨as, rfl, -⟩ | ⟨bs, rfl, rfl⟩
    · exact hx.opened p (List.prefix_append p as)
    · have hbs := hy.opened bs (List.prefix_append bs t)
      rw [List.countP_append, List.countP_append, hx.closed]
      exact Nat.add_le_add_left hbs _
  · rw [List.countP_append, List.countP_append, hx.closed, hy.closed]

/-- A text in angle brackets. -/
theorem enclosed (hx : Matched xs) : Matched ('<' :: (xs ++ ['>'])) := by
  have hcount : ∀ p : List Char, ('<' :: p).countP isOpener = p.countP isOpener + 1 ∧
      ('<' :: p).countP isCloser = p.countP isCloser ∧
      (p ++ ['>']).countP isOpener = p.countP isOpener ∧
      (p ++ ['>']).countP isCloser = p.countP isCloser + 1 := by
    intro p
    simp [isOpener, isCloser]
  refine ⟨fun p hp => ?_, ?_⟩
  · rcases List.prefix_cons_iff.1 hp with rfl | ⟨q, rfl, hq⟩
    · exact Nat.le_refl _
    · rw [(hcount q).1, (hcount q).2.1]
      rcases List.prefix_concat_iff.1 hq with rfl | hq
      · exact Nat.le_of_eq (by rw [(hcount xs).2.2.1, (hcount xs).2.2.2, hx.closed])
      · exact Nat.le_succ_of_le (hx.opened q hq)
  · rw [(hcount _).1, (hcount _).2.1, (hcount xs).2.2.1, (hcount xs).2.2.2, hx.closed]

/-- Read from its end, a text closes brackets before it opens them. -/
theorem closed_of_suffix (hx : Matched xs) (h : ys <:+ xs) :
    ys.countP isOpener ≤ ys.countP isCloser := by
  obtain ⟨front, rfl⟩ := h
  have hfront := hx.opened front (List.prefix_append front ys)
  have hall := hx.closed
  rw [List.countP_append, List.countP_append] at hall
  omega

end Matched

/-- Characters that are no brackets do not count. -/
theorem balancedFrom_filter (depth : Nat) (cs : List Char) :
    balancedFrom depth (cs.filter isBracket) = balancedFrom depth cs := by
  induction cs generalizing depth with
  | nil => rfl
  | cons c cs ih =>
    rw [List.filter_cons]
    split
    · rw [Bool.eq_iff_iff, balancedFrom_cons, balancedFrom_cons]
      simp only [ih]
    · next hc =>
      have hplain : isOpener c = false ∧ isCloser c = false := by simpa [isBracket] using hc
      rw [ih, balancedFrom.eq_def depth (c :: cs)]
      simp [hplain]

theorem filter_dropWhile_of_disjoint {p q : Char → Bool} (h : ∀ c, p c = true → q c = false)
    (cs : List Char) : (cs.dropWhile p).filter q = cs.filter q := by
  induction cs with
  | nil => rfl
  | cons c cs ih =>
    rw [List.dropWhile_cons]
    split
    · next hc => rw [ih, List.filter_cons, h c hc, if_neg Bool.false_ne_true]
    · rfl

theorem isBracket_of_isBlank {c : Char} (h : Text.isBlank c = true) : isBracket c = false := by
  simp only [isBracket, isOpener, isCloser, Bool.or_eq_false_iff, decide_eq_false_iff_not]
  refine ⟨⟨?_, ?_⟩, ?_, ?_⟩ <;> rintro rfl <;> exact absurd h (by decide)

/-- White space around a text does not count. -/
theorem balanced_trimChars (cs : List Char) : balanced (Text.trimChars cs) = balanced cs := by
  unfold balanced
  rw [← balancedFrom_filter 0 (Text.trimChars cs), Text.trimChars, List.filter_reverse,
    filter_dropWhile_of_disjoint fun _ => isBracket_of_isBlank, List.filter_reverse,
    List.reverse_reverse, filter_dropWhile_of_disjoint fun _ => isBracket_of_isBlank,
    balancedFrom_filter]

theorem splitCommas_ne_nil (depth : Int) (cs : List Char) : splitCommas depth cs ≠ [] := by
  cases cs with
  | nil => exact List.cons_ne_nil _ _
  | cons c cs =>
    rw [splitCommas]
    split
    · exact List.cons_ne_nil _ _
    · split <;> exact List.cons_ne_nil _ _

/-- A text is closed when its pieces are, the first one from the depth at which it starts. -/
theorem balancedFrom_pieces {depth : Nat} {cs first : List Char} {rest : List (List Char)}
    (h : splitCommas depth cs = first :: rest) :
    balancedFrom depth cs = true ↔
      balancedFrom depth first = true ∧ ∀ p ∈ rest, balanced p = true := by
  induction cs generalizing depth first rest with
  | nil =>
    cases h
    exact ⟨fun hd => ⟨hd, fun _ hp => absurd hp List.not_mem_nil⟩, fun hd => hd.1⟩
  | cons c cs ih =>
    rw [splitCommas] at h
    split at h
    · next hcut =>
      cases h
      obtain ⟨rfl, rfl⟩ : c = ',' ∧ depth = 0 := by simpa using hcut
      obtain ⟨second, others, hpieces⟩ := List.exists_cons_of_ne_nil (splitCommas_ne_nil 0 cs)
      show balancedFrom 0 cs = true ↔ true = true ∧ ∀ p ∈ splitCommas 0 cs, balanced p = true
      rw [ih hpieces, hpieces, List.forall_mem_cons, balanced]
      exact (and_iff_right rfl).symm
    · split at h
      · next hnil => exact absurd hnil (splitCommas_ne_nil _ cs)
      · next p ps hpieces =>
        cases h
        -- the first piece has the character in front, so it comes to the same depth
        have hnext : ∀ next : Nat, depthAfter depth c = next → (balancedFrom next cs = true ↔
            balancedFrom next p = true ∧ ∀ q ∈ rest, balanced q = true) := by
          intro next hnext
          rw [hnext] at hpieces
          exact ih hpieces
        rw [balancedFrom_cons, balancedFrom_cons]
        constructor
        · rintro ⟨next, hd, hall⟩
          obtain ⟨hp, hps⟩ := (hnext next hd).1 hall
          exact ⟨⟨next, hd, hp⟩, hps⟩
        · rintro ⟨⟨next, hd, hp⟩, hps⟩
          exact ⟨next, hd, (hnext next hd).2 ⟨hp, hps⟩⟩

theorem balanced_iff_pieces (cs : List Char) :
    balanced cs = true ↔ ∀ p ∈ splitCommas 0 cs, balanced p = true := by
  obtain ⟨first, rest, hpieces⟩ := List.exists_cons_of_ne_nil (splitCommas_ne_nil 0 cs)
  rw [balanced, balancedFrom_pieces hpieces, hpieces, List.forall_mem_cons]
  rfl

end TypeName

end TypedClient
