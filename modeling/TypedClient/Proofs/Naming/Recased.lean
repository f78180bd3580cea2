import TypedClient.Proofs.Naming.Identifiers
import TypedClient.Text.AsciiTable

/-! PascalCase over PascalCase. A pass joins the words of a text, so the next one takes them for one
word and may write other letters: initials that were joined, as `AB` for `a-b`, are a word of
capitals, of which only the first one stays. A text that a pass has written stays as it is exactly if
it has a small letter, or no capital after its first character; a third pass never changes what the
second one has written. The name of an action is such a second pass over its segment. -/

namespace TypedClient

namespace Naming

/-- A text with a small letter, or without a capital after its first character. -/
def Settled (cs : List Char) : Prop := (∃ c ∈ cs, c.isLower) ∨ ∀ c ∈ cs.tail, ¬c.isUpper

instance (cs : List Char) : Decidable (Settled cs) :=
  decidable_of_iff (cs.any Char.isLower ∨ cs.tail.all (!·.isUpper)) (by simp [Settled])

/-- A text that begins with no small letter. -/
def Led (cs : List Char) : Prop := ∀ c ∈ cs.head?, ¬c.isLower

/-! ### Words -/

theorem led_nil : Led [] := fun _ hc => absurd hc (Option.not_mem_none _)

theorem led_capitalize (cs : List Char) : Led (capitalize cs) := by
  cases cs with
  | nil => exact led_nil
  | cons c cs =>
    intro d hd
    rw [← Option.mem_some.1 hd]
    simp

theorem Led.capitalize_eq {cs : List Char} (h : Led cs) : capitalize cs = cs := by
  cases cs with
  | nil => rfl
  | cons c cs => rw [capitalize, Char.toUpper_eq_of_not_isLower (h c rfl)]

theorem Led.append {cs : List Char} (h : Led cs) (hne : cs ≠ []) (ds : List Char) :
    Led (cs ++ ds) := by
  obtain ⟨c, cs, rfl⟩ := List.exists_cons_of_ne_nil hne
  exact h

theorem map_toLower_eq_iff {cs : List Char} :
    cs.map Char.toLower = cs ↔ ∀ c ∈ cs, ¬c.isUpper := by
  have hiff : cs.map Char.toLower = cs.map id ↔ ∀ c ∈ cs, c.toLower = id c := List.map_inj_left
  rw [List.map_id] at hiff
  refine hiff.trans (forall₂_congr fun c _ => ⟨fun h hupper => ?_, Char.toLower_eq_of_not_isUpper⟩)
  rw [show c = c.toLower from h.symm, Char.isUpper_toLower_eq_false] at hupper
  cases hupper

theorem settled_nil : Settled [] := .inr fun _ hc => absurd hc List.not_mem_nil

/-- A word with both kinds of letters has nothing to change after its first character. -/
theorem pascalWord_of_mixed {word : List Char} (h : Led word) (hmixed : isMixed word = true) :
    pascalWord word = word ∧ Settled word := by
  rw [pascalWord, if_pos hmixed, h.capitalize_eq]
  exact ⟨rfl, .inl (List.any_eq_true.1 (Bool.and_eq_true_iff.1 hmixed).1)⟩

/-- What a word of small letters or of capitals becomes: nothing changes in it but the letters after
the first character. -/
theorem pascalWord_of_not_mixed {c : Char} {cs : List Char} (hc : ¬c.isLower)
    (h : isMixed (c :: cs) = false) : pascalWord (c :: cs) = c :: cs.map Char.toLower := by
  rw [pascalWord, h, if_neg (by decide), List.map_cons, capitalize,
    Char.toUpper_toLower_eq_toUpper, Char.toUpper_eq_of_not_isLower hc]

/-- A word that begins with no small letter stays as it is when it has both kinds of letters, and
otherwise unless there is a capital after its first character. -/
theorem pascalWord_eq_iff {word : List Char} (h : Led word) :
    pascalWord word = word ↔ Settled word := by
  cases word with
  | nil => exact iff_of_true rfl settled_nil
  | cons c cs =>
    cases hmixed : isMixed (c :: cs) with
    | true => exact iff_of_true (pascalWord_of_mixed h hmixed).1 (pascalWord_of_mixed h hmixed).2
    | false =>
      rw [pascalWord_of_not_mixed (h c rfl) hmixed, List.cons_inj_right, map_toLower_eq_iff]
      refine ⟨.inr, fun hsettled => hsettled.elim (fun hlower d hd hupper => ?_) id⟩
      have hboth : isMixed (c :: cs) = true :=
        Bool.and_eq_true_iff.2 ⟨List.any_eq_true.2 hlower,
          List.any_eq_true.2 ⟨d, List.mem_cons_of_mem c hd, hupper⟩⟩
      rw [hboth] at hmixed
      cases hmixed

/-- A word that begins with no small letter stays as its first pass leaves it. -/
theorem settled_pascalWord {word : List Char} (h : Led word) : Settled (pascalWord word) := by
  cases word with
  | nil => exact settled_nil
  | cons c cs =>
    cases hmixed : isMixed (c :: cs) with
    | true =>
      obtain ⟨heq, hsettled⟩ := pascalWord_of_mixed h hmixed
      rw [heq]
      exact hsettled
    | false =>
      rw [pascalWord_of_not_mixed (h c rfl) hmixed]
      refine .inr fun d hd => ?_
      obtain ⟨e, -, rfl⟩ := List.mem_map.1 hd
      simp

/-! ### Texts -/

section Texts

variable [Text.Transliteration]

theorem led_pascalChars (cs : List Char) : Led (pascalChars cs) := by
  rw [pascalChars]
  cases hwords : words cs with
  | nil => exact led_nil
  | cons word rest =>
    have hne : pascalWord word ≠ [] := by
      intro hnil
      have hlow := low_pascalWord word
      rw [hnil] at hlow
      have hword : word ∈ words cs := hwords ▸ List.mem_cons_self
      rw [List.map_eq_nil_iff.1 hlow.symm] at hword
      simp [words] at hword
    rw [List.flatMap_cons]
    exact (led_capitalize _).append hne _

/-- A text of letters and digits that begins with no small letter, as the segments of a path and
every text in PascalCase are. -/
structure Cased (s : String) : Prop where
  alphanum : ∀ c ∈ s.toList, c.isAlphanum
  led : Led s.toList

theorem cased_pascalCase (s : String) : Cased (pascalCase s) := by
  rw [pascalCase]
  refine ⟨fun c hc => ?_, ?_⟩
  · rw [String.toList_ofList] at hc
    exact isAlphanum_of_mem_pascalChars hc
  · rw [String.toList_ofList]
    exact led_pascalChars s.toList

variable [Text.LawfulTransliteration]

theorem pascalCase_eq_of_alphanum {s : String} (h : ∀ c ∈ s.toList, c.isAlphanum) :
    pascalCase s = String.ofList (pascalWord s.toList) := by
  by_cases hs : s = ""
  · subst hs
    rfl
  · exact Plain.pascalCase_eq ⟨hs, h⟩

theorem Cased.pascalCase_eq_iff {s : String} (h : Cased s) :
    pascalCase s = s ↔ Settled s.toList := by
  rw [pascalCase_eq_of_alphanum h.alphanum, ← pascalWord_eq_iff h.led, ← String.toList_inj,
    String.toList_ofList]

/-- A pass over a text that does not stay keeps its first character and writes the others small. -/
theorem Cased.pascalCase_of_not_settled {s : String} (h : Cased s) (hs : ¬Settled s.toList) :
    pascalCase s = String.ofList (s.toList.take 1 ++ Text.low (s.toList.drop 1)) := by
  rw [pascalCase_eq_of_alphanum h.alphanum]
  have hled := h.led
  cases hlist : s.toList with
  | nil => rfl
  | cons c cs =>
    rw [hlist] at hs hled
    have hmixed : isMixed (c :: cs) = false := by
      rw [isMixed, Bool.eq_false_of_not_eq_true fun hlower => hs (.inl (List.any_eq_true.1 hlower))]
      rfl
    rw [pascalWord_of_not_mixed (hled c rfl) hmixed]
    rfl

theorem Cased.settled_pascalCase {s : String} (h : Cased s) : Settled (pascalCase s).toList := by
  rw [pascalCase_eq_of_alphanum h.alphanum, String.toList_ofList]
  exact settled_pascalWord h.led

end Texts

end Naming

namespace Route

open Naming

/-! ### Segments -/

section Segments

variable [Text.Transliteration]

theorem led_addPiece {before : List Segment} (hbefore : ∀ s ∈ before, s.Named ∧ Led s.name)
    (piece : List Char) : ∀ s ∈ addPiece before piece, Led s.name := by
  unfold addPiece
  cases wholeParameter? piece with
  | some name =>
    cases before with
    | nil => exact fun s hs => absurd hs List.not_mem_nil
    | cons s rest =>
      rw [List.forall_mem_cons] at hbefore ⊢
      refine ⟨?_, fun t ht => (hbefore.2 t ht).2⟩
      rw [Segment.by_, List.append_assoc]
      exact hbefore.1.2.append hbefore.1.1.1 _
  | none =>
    obtain ⟨text, found⟩ := inlineParameters false piece
    have hled := led_pascalChars text
    cases hname : pascalChars text with
    | nil => simpa only [hname] using fun s hs => (hbefore s hs).2
    | cons first rest =>
      simp only [hname, List.forall_mem_cons]
      exact ⟨hname ▸ hled, fun s hs => (hbefore s hs).2⟩

theorem led_foldl_addPiece (pieces : List (List Char)) {before : List Segment}
    (hbefore : ∀ s ∈ before, s.Named ∧ Led s.name) :
    ∀ s ∈ pieces.foldl addPiece before, Led s.name := by
  induction pieces generalizing before with
  | nil => exact fun s hs => (hbefore s hs).2
  | cons piece pieces ih =>
    exact ih fun s hs => ⟨named_addPiece (fun t ht => (hbefore t ht).1) piece s hs,
      led_addPiece hbefore piece s hs⟩

theorem cased_of_mem_segments {path segment : String} (h : segment ∈ segments path) :
    Cased segment := by
  refine ⟨(named_of_mem_segments h).2, ?_⟩
  obtain ⟨chars, hchars, rfl⟩ := List.mem_map.1 h
  obtain ⟨s, hs, rfl⟩ := List.mem_map.1 hchars
  rw [String.toList_ofList]
  exact led_foldl_addPiece _ (fun s hs => absurd hs List.not_mem_nil) s (List.mem_reverse.1 hs)

/-! ### Action names -/

/-- The name of an action goes on from its segment in PascalCase. -/
theorem actionName_eq_append {segment : String} (h : segment ≠ "") (method : String) :
    ∃ rest, actionName (some segment) method = pascalCase segment ++ rest := by
  unfold actionName
  dsimp only
  split
  · next heq => cases heq
  · next heq => exact absurd (Option.some.inj heq) h
  · next heq =>
    cases heq
    split <;> split
    · exact ⟨"", String.append_empty.symm⟩
    · exact ⟨"Async", rfl⟩
    · exact ⟨_, String.append_assoc⟩
    · exact ⟨_, by rw [String.append_assoc, String.append_assoc]⟩

variable [Text.LawfulTransliteration]

/-- A name begins with its segment, in whatever letters, and in those of the segment exactly if a
pass over the segment changes nothing. -/
theorem prefix_actionName_iff {segment : String} (h : segment ≠ "") (hcased : Cased segment)
    (method : String) :
    Text.low segment.toList <+: Text.low (actionName (some segment) method).toList ∧
      (segment.toList <+: (actionName (some segment) method).toList ↔
        pascalCase segment = segment) := by
  obtain ⟨rest, hname⟩ := actionName_eq_append h method
  have hlow := (Plain.mk h hcased.alphanum).inPascalCase.2.2
  have hlength : (pascalCase segment).toList.length = segment.toList.length := by
    simpa [Text.low] using congrArg List.length hlow
  have hstart : (pascalCase segment).toList <+: (actionName (some segment) method).toList := by
    rw [hname, String.toList_append]
    exact List.prefix_append _ _
  refine ⟨?_, fun hprefix => ?_, fun heq => ?_⟩
  · rw [← hlow]
    exact hstart.map Char.toLower
  · have hpre := List.prefix_of_prefix_length_le hstart hprefix hlength.le
    exact String.toList_inj.1 (hpre.eq_of_length hlength)
  · rw [heq] at hstart
    exact hstart

/-- A second pass changes a text in PascalCase exactly if it has no small letter and a capital after
its first character: it writes all but the first character small, and further passes change nothing.
So the name of an action begins with its segment, in whatever letters, and in those of the segment
exactly if that is no such text. -/
theorem recased :
    (∀ s, (pascalCase (pascalCase s) = pascalCase s ↔ Settled (pascalCase s).toList) ∧
      (¬Settled (pascalCase s).toList → pascalCase (pascalCase s) =
        String.ofList ((pascalCase s).toList.take 1 ++ Text.low ((pascalCase s).toList.drop 1))) ∧
      pascalCase (pascalCase (pascalCase s)) = pascalCase (pascalCase s)) ∧
    ∀ path segment, (segments path).getLast? = some segment → ∀ method,
      Text.low segment.toList <+: Text.low (actionName (some segment) method).toList ∧
      (segment.toList <+: (actionName (some segment) method).toList ↔
        Settled segment.toList) := by
  refine ⟨fun s => ?_, fun path segment hlast method => ?_⟩
  · have hcased := cased_pascalCase s
    exact ⟨hcased.pascalCase_eq_iff, hcased.pascalCase_of_not_settled,
      (cased_pascalCase _).pascalCase_eq_iff.2 hcased.settled_pascalCase⟩
  · have hmem := List.mem_of_getLast? hlast
    have hcased := cased_of_mem_segments hmem
    rw [← hcased.pascalCase_eq_iff]
    exact prefix_actionName_iff (named_of_mem_segments hmem).1 hcased method

end Segments

/-- Two words of one letter are a word of two capitals, which a second pass does not keep. -/
theorem pascalCase_changes_initials :
    ¬((∀ s, pascalCase (pascalCase s) = pascalCase s) ∧
      ∀ path segment, (segments path).getLast? = some segment → ∀ method,
        segment.toList <+: (actionName (some segment) method).toList) := by
  intro h
  have heq := h.1 "a-b"
  revert heq
  decide

theorem recased_initials :
    (¬Settled (pascalCase "a-b").toList ∧ pascalCase (pascalCase "a-b") = "Ab") ∧
      (segments "/a-b").getLast? = some "AB" ∧
      ¬"AB".toList <+: (actionName (some "AB") "get").toList := by
  have hsettled : ¬Settled (pascalCase "a-b").toList := by decide +kernel
  have hlast : (segments "/a-b").getLast? = some "AB" := by decide +kernel
  have htexts := (recased.1 "a-b").2.1 hsettled
  have hnames := (recased.2 "/a-b" "AB" hlast "get").2
  refine ⟨⟨hsettled, htexts.trans (by decide)⟩, hlast, fun hprefix => ?_⟩
  exact absurd (hnames.1 hprefix) (by decide +kernel)

end Route

end TypedClient
