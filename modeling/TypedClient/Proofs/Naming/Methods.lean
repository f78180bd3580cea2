import TypedClient.Proofs.Naming.Identifiers
import TypedClient.Text.AsciiTable

/-! Names of actions for different methods on one segment. A segment that begins or ends with the
method gives a name of letters and digits, any other one is joined with the method by an underscore.
So the names of two methods are the same exactly if the segment begins with one of them and ends
with the other one. -/

namespace TypedClient

namespace Route

open Naming

variable {s : String} {m m' : HttpMethod}

/-- A name with `Async` at its end. -/
def withAsync (name : String) : String := if endsInAsync name then name else name ++ "Async"

/-- Whether a segment begins or ends with the method, in whatever letters. -/
def Covers (s : String) (m : HttpMethod) : Prop :=
  m.lowerName.toList <+: Text.low s.toList ∨ m.lowerName.toList <:+ Text.low s.toList

theorem covers_iff : Covers s m ↔
    (Text.startsWith (Text.lower s) m.lowerName || Text.endsWith (Text.lower s) m.lowerName) =
      true := by
  simp [Covers, Text.startsWith, Text.endsWith, Text.lower, Text.low]

theorem low_lowerName (m : HttpMethod) : Text.low m.lowerName.toList = m.lowerName.toList := by
  cases m <;> decide

/-- No method begins or ends with another one. -/
theorem eq_of_lowerName (h : m.lowerName.toList <+: m'.lowerName.toList ∨
    m.lowerName.toList <:+ m'.lowerName.toList) : m = m' := by
  revert h
  cases m <;> cases m' <;> decide

theorem Covers.ne_empty (h : Covers s m) : s ≠ "" := by
  rintro rfl
  revert h
  cases m <;> unfold Covers <;> decide

/-- The segment begins with the first method and ends with the second one, in whatever letters. -/
def Spans (s : String) (m m' : HttpMethod) : Prop :=
  m.lowerName.toList <+: Text.low s.toList ∧ m'.lowerName.toList <:+ Text.low s.toList

/-- Different methods that a segment begins or ends with stand at different ends of it. -/
theorem covers_and_covers_iff (h : m ≠ m') :
    Covers s m ∧ Covers s m' ↔ Spans s m m' ∨ Spans s m' m := by
  constructor
  · rintro ⟨hm | hm, hm' | hm'⟩
    · rcases List.prefix_or_prefix_of_prefix hm hm' with hpre | hpre
      · exact absurd (eq_of_lowerName (.inl hpre)) h
      · exact absurd (eq_of_lowerName (.inl hpre)).symm h
    · exact .inl ⟨hm, hm'⟩
    · exact .inr ⟨hm', hm⟩
    · rcases List.suffix_or_suffix_of_suffix hm hm' with hsuf | hsuf
      · exact absurd (eq_of_lowerName (.inr hsuf)) h
      · exact absurd (eq_of_lowerName (.inr hsuf)).symm h
  · rintro (⟨hm, hm'⟩ | ⟨hm', hm⟩)
    · exact ⟨.inl hm, .inr hm'⟩
    · exact ⟨.inr hm, .inl hm'⟩

/-! ### Names -/

section Names

variable [Text.Transliteration]

theorem actionName_of_covers (h : Covers s m) :
    actionName (some s) m.lowerName = withAsync (pascalCase s) := by
  rw [actionName_eq (fun _ hs => Option.mem_some.1 hs ▸ h.ne_empty), Option.getD_some, bareName,
    if_pos (covers_iff.1 h)]
  rfl

/-- Only a name that is joined with its method has an underscore. -/
theorem not_mem_withAsync (s : String) : '_' ∉ (withAsync (pascalCase s)).toList := by
  have hplain : '_' ∉ (pascalCase s).toList := by
    intro hmem
    rw [pascalCase, String.toList_ofList] at hmem
    exact absurd (isAlphanum_of_mem_pascalChars hmem) (by decide)
  rw [withAsync]
  split
  · exact hplain
  · rw [String.toList_append, List.mem_append, not_or]
    exact ⟨hplain, by decide⟩

variable [Text.LawfulTransliteration]

/-- A name that ends with a method does not end in `async`. -/
theorem withAsync_method (start : String) (m : HttpMethod) :
    withAsync (start ++ pascalCase m.lowerName) = start ++ pascalCase m.lowerName ++ "Async" := by
  refine if_neg fun hasync => ?_
  have hlow : Text.low (start ++ pascalCase m.lowerName).toList =
      Text.low start.toList ++ m.lowerName.toList := by
    rw [String.toList_append, Text.low, List.map_append, ← Text.low, ← Text.low,
      (plain_lowerName m).1.inPascalCase.2.2, low_lowerName]
  have hsuffix := (endsInAsync_iff _).1 hasync
  rw [hlow] at hsuffix
  -- one of the two ends would be the end of the other one
  have hends := List.suffix_or_suffix_of_suffix hsuffix (List.suffix_append _ _)
  clear hlow hsuffix hasync
  revert hends
  cases m <;> decide

theorem actionName_of_not_covers (hs : s ≠ "") (h : ¬Covers s m) :
    actionName (some s) m.lowerName =
      pascalCase s ++ "_" ++ pascalCase m.lowerName ++ "Async" := by
  rw [actionName_eq (fun _ hmem => Option.mem_some.1 hmem ▸ hs), Option.getD_some, bareName,
    if_neg (mt covers_iff.2 h)]
  exact withAsync_method _ m

theorem actionName_none (m : HttpMethod) :
    actionName none m.lowerName = pascalCase m.lowerName ++ "Async" := by
  have hcovers : Covers m.lowerName m := .inl (by rw [low_lowerName])
  have hname := withAsync_method "" m
  rw [String.empty_append] at hname
  rw [actionName_eq (fun _ hs => absurd hs (Option.not_mem_none _)), Option.getD_none, bareName,
    if_pos (covers_iff.1 hcovers)]
  exact hname

theorem pascalCase_lowerName_inj (h : pascalCase m.lowerName = pascalCase m'.lowerName) :
    m = m' := by
  have hlow : ∀ m : HttpMethod, Text.low (pascalCase m.lowerName).toList = m.lowerName.toList :=
    fun m => (plain_lowerName m).1.inPascalCase.2.2.trans (low_lowerName m)
  refine eq_of_lowerName (.inl ?_)
  rw [← hlow m, ← hlow m', h]

/-- After the same start, names stay apart. -/
theorem joined_ne (h : m ≠ m') (start : String) :
    start ++ pascalCase m.lowerName ++ "Async" ≠ start ++ pascalCase m'.lowerName ++ "Async" := by
  intro heq
  have hlists := congrArg String.toList heq
  simp only [String.toList_append, List.append_cancel_right_eq, List.append_cancel_left_eq,
    String.toList_inj] at hlists
  exact h (pascalCase_lowerName_inj hlists)

theorem actionName_ne_of_covers (hs : s ≠ "") (hm : Covers s m) (hm' : ¬Covers s m') :
    actionName (some s) m.lowerName ≠ actionName (some s) m'.lowerName := by
  intro heq
  rw [actionName_of_covers hm, actionName_of_not_covers hs hm'] at heq
  refine not_mem_withAsync s (heq ▸ ?_)
  simp [String.toList_append]

theorem actionName_none_ne (h : m ≠ m') :
    actionName none m.lowerName ≠ actionName none m'.lowerName := by
  have hjoined := joined_ne h ""
  rwa [String.empty_append, String.empty_append, ← actionName_none, ← actionName_none] at hjoined

/-- A segment that is not empty gives two methods the same name exactly if both of them are at an
end of it. -/
theorem actionName_some_eq_iff (h : m ≠ m') (hs : s ≠ "") :
    actionName (some s) m.lowerName = actionName (some s) m'.lowerName ↔
      Covers s m ∧ Covers s m' := by
  by_cases hm : Covers s m
  · by_cases hm' : Covers s m'
    · simp [actionName_of_covers hm, actionName_of_covers hm', hm, hm']
    · exact iff_of_false (actionName_ne_of_covers hs hm hm') fun hboth => hm' hboth.2
  · refine iff_of_false ?_ fun hboth => hm hboth.1
    by_cases hm' : Covers s m'
    · exact (actionName_ne_of_covers hs hm' hm).symm
    · rw [actionName_of_not_covers hs hm, actionName_of_not_covers hs hm']
      exact joined_ne h _

/-- Two methods give a segment the same name exactly if it begins with one of them and ends with the
other one. -/
theorem actionName_eq_iff (h : m ≠ m') (segment : Option String) :
    actionName segment m.lowerName = actionName segment m'.lowerName ↔
      ∃ s, segment = some s ∧ (Spans s m m' ∨ Spans s m' m) := by
  simp only [← covers_and_covers_iff h]
  cases segment with
  | none => exact iff_of_false (actionName_none_ne h) nofun
  | some s =>
    simp only [Option.some.injEq, exists_eq_left']
    by_cases hs : s = ""
    · subst hs
      exact iff_of_false (actionName_none_ne h) fun hboth => hboth.1.ne_empty rfl
    · exact actionName_some_eq_iff h hs

end Names

/-- A segment that begins with one method and ends with another one has one name for both. -/
theorem methods_collide_getPost :
    ¬ ∀ (segment : Option String) (m m' : HttpMethod), m ≠ m' →
      actionName segment m.lowerName ≠ actionName segment m'.lowerName := fun hclaim =>
  hclaim (some "GetPost") .get .post (by decide)
    ((actionName_some_eq_iff (by decide) (by decide)).2 ⟨.inl (by decide), .inr (by decide)⟩)

theorem actionName_eq_iff_getPost : HttpMethod.get ≠ HttpMethod.post ∧
    (actionName (some "GetPost") HttpMethod.get.lowerName =
        actionName (some "GetPost") HttpMethod.post.lowerName ↔
      ∃ s, some "GetPost" = some s ∧ (Spans s .get .post ∨ Spans s .post .get)) :=
  ⟨by decide, actionName_eq_iff (by decide) (some "GetPost")⟩

end Route

end TypedClient
