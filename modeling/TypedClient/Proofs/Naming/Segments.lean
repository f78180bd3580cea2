import Mathlib.Data.List.Basic
import TypedClient.Route

/-! What the segments of a path are made of. Words are cut at every character that is no ASCII
letter or digit, and a change of case makes letters of letters, so a segment is a text of ASCII
letters and digits; a piece that leaves none makes no segment, so none is empty. -/

namespace TypedClient

/-! ### Characters -/

namespace Text

theorem isAlphanum_toUpper {c : Char} (h : c.isAlphanum) : c.toUpper.isAlphanum := by
  delta Char.isAlphanum Char.isAlpha Char.isUpper Char.isLower Char.isDigit Char.toUpper at *
  simp only [ge_iff_le, Bool.or_eq_true, Bool.and_eq_true, decide_eq_true_eq,
    UInt32.le_iff_toNat_le] at h ⊢
  split <;> grind [UInt32.toNat_add, Char.toNat_val]

theorem isAlphanum_toLower {c : Char} (h : c.isAlphanum) : c.toLower.isAlphanum := by
  delta Char.isAlphanum Char.isAlpha Char.isUpper Char.isLower Char.isDigit Char.toLower at *
  simp only [ge_iff_le, Bool.or_eq_true, Bool.and_eq_true, decide_eq_true_eq,
    UInt32.le_iff_toNat_le] at h ⊢
  split <;> grind [UInt32.toNat_add, Char.toNat_val]

/-- The characters at which a text is cut are in none of its pieces. -/
theorem not_cut_of_mem_pieces {cut : Char → Bool} {cs piece : List Char} {c : Char}
    (hpiece : piece ∈ pieces cut cs) (hc : c ∈ piece) : cut c = false := by
  induction cs generalizing piece with
  | nil =>
    rw [List.mem_singleton.1 hpiece] at hc
    exact absurd hc List.not_mem_nil
  | cons first cs ih =>
    rw [pieces] at hpiece
    split at hpiece
    · rcases List.mem_cons.1 hpiece with rfl | hpiece
      · exact absurd hc List.not_mem_nil
      · exact ih hpiece hc
    · next hfirst =>
      split at hpiece
      · next hnil => exact absurd hnil (pieces_ne_nil cut cs)
      · next p ps hcons =>
        rcases List.mem_cons.1 hpiece with rfl | hpiece
        · rcases List.mem_cons.1 hc with rfl | hc
          · simpa using hfirst
          · exact ih (hcons ▸ List.mem_cons_self) hc
        · exact ih (hcons ▸ List.mem_cons_of_mem p hpiece) hc

end Text

/-! ### Words -/

namespace Naming

theorem isAlphanum_of_mem_words [Text.Transliteration] {cs word : List Char} {c : Char}
    (hword : word ∈ words cs)
    (hc : c ∈ word) : c.isAlphanum := by
  simpa using Text.not_cut_of_mem_pieces (List.mem_of_mem_filter hword) hc

theorem isAlphanum_of_mem_capitalize {cs : List Char} (h : ∀ c ∈ cs, c.isAlphanum) {c : Char}
    (hc : c ∈ capitalize cs) : c.isAlphanum := by
  cases cs with
  | nil => exact absurd hc List.not_mem_nil
  | cons first cs =>
    rcases List.mem_cons.1 hc with rfl | hc
    · exact Text.isAlphanum_toUpper (h first List.mem_cons_self)
    · exact h c (List.mem_cons_of_mem first hc)

theorem isAlphanum_of_mem_pascalChars [Text.Transliteration] {cs : List Char} {c : Char}
    (hc : c ∈ pascalChars cs) :
    c.isAlphanum := by
  obtain ⟨word, hword, hc⟩ := List.mem_flatMap.1 hc
  refine isAlphanum_of_mem_capitalize (fun d hd => ?_) hc
  split at hd
  · exact isAlphanum_of_mem_words hword hd
  · obtain ⟨e, he, rfl⟩ := List.mem_map.1 hd
    exact Text.isAlphanum_toLower (isAlphanum_of_mem_words hword he)

end Naming

/-! ### Segments -/

namespace Route

/-- Whether a segment has a name of letters and digits. -/
def Segment.Named (s : Segment) : Prop := s.name ≠ [] ∧ ∀ c ∈ s.name, c.isAlphanum

variable [Text.Transliteration]

theorem Segment.Named.by_ {s : Segment} (hs : s.Named) (name : List Char) : (s.by_ name).Named := by
  refine ⟨fun hnil => hs.1 ?_, fun c hc => ?_⟩
  · simp only [Segment.by_, List.append_eq_nil_iff] at hnil
    exact hnil.1.1
  · simp only [Segment.by_, List.mem_append] at hc
    rcases hc with (hc | hc) | hc
    · exact hs.2 c hc
    · split at hc
      · exact absurd hc List.not_mem_nil
      · rcases List.mem_pair.1 (show c ∈ ['B', 'y'] from hc) with rfl | rfl
        · decide
        · decide
    · exact Naming.isAlphanum_of_mem_pascalChars hc

theorem named_addPiece {before : List Segment} (hbefore : ∀ s ∈ before, s.Named)
    (piece : List Char) : ∀ s ∈ addPiece before piece, s.Named := by
  unfold addPiece
  cases wholeParameter? piece with
  | some name =>
    cases before with
    | nil => exact fun s hs => absurd hs List.not_mem_nil
    | cons s rest =>
      rw [List.forall_mem_cons] at hbefore ⊢
      exact ⟨hbefore.1.by_ name, hbefore.2⟩
  | none =>
    obtain ⟨text, found⟩ := inlineParameters false piece
    cases hname : Naming.pascalChars text with
    | nil => simpa only [hname] using hbefore
    | cons first rest =>
      simp only [hname, List.forall_mem_cons]
      refine ⟨⟨List.cons_ne_nil first rest, fun c hc => ?_⟩, hbefore⟩
      exact Naming.isAlphanum_of_mem_pascalChars (hname ▸ hc)

theorem named_foldl_addPiece (pieces : List (List Char)) {before : List Segment}
    (hbefore : ∀ s ∈ before, s.Named) : ∀ s ∈ pieces.foldl addPiece before, s.Named := by
  induction pieces generalizing before with
  | nil => exact hbefore
  | cons piece pieces ih => exact ih (named_addPiece hbefore piece)

/-- A segment of a path is a text of letters and digits, and not empty. -/
theorem named_of_mem_segments {path segment : String} (h : segment ∈ segments path) :
    segment ≠ "" ∧ ∀ c ∈ segment.toList, c.isAlphanum := by
  obtain ⟨chars, hchars, rfl⟩ := List.mem_map.1 h
  obtain ⟨s, hs, rfl⟩ := List.mem_map.1 hchars
  obtain ⟨hne, hall⟩ := named_foldl_addPiece _ (fun s hs => absurd hs List.not_mem_nil) s
    (List.mem_reverse.1 hs)
  refine ⟨fun hempty => hne ?_, fun c hc => hall c ?_⟩
  · simpa using hempty
  · simpa using hc

end Route

end TypedClient
