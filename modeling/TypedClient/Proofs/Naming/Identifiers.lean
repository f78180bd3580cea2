import Mathlib
import TypedClient.Client.RouteTree
import TypedClient.Document.Access
import TypedClient.Proofs.Naming.Segments
import TypedClient.Proofs.Path.Place

/-! Names that could be written without quotes. Segments and method names are made of letters and
digits, and what joins them is an underscore or more of the same, so every character of a name may
stand in an identifier. What decides is the first one, which changes of case and numbers at the end
of a name leave what it is: a digit or none. -/

namespace TypedClient

/-! ### Digits and case -/

namespace Text

theorem isDigit_toUpper (c : Char) : c.toUpper.isDigit = c.isDigit := by
  delta Char.isDigit Char.toUpper
  simp only [ge_iff_le, UInt32.le_iff_toNat_le]
  split <;> grind [UInt32.toNat_add, Char.toNat_val]

theorem isDigit_toLower (c : Char) : c.toLower.isDigit = c.isDigit := by
  delta Char.isDigit Char.toLower
  simp only [ge_iff_le, UInt32.le_iff_toNat_le]
  split <;> grind [UInt32.toNat_add, Char.toNat_val]

theorem not_isAlpha_of_isDigit {c : Char} (h : c.isDigit) : c.isAlpha = false := by
  delta Char.isAlpha Char.isUpper Char.isLower Char.isDigit at *
  grind [UInt32.le_iff_toNat_le]

theorem lt_of_isAlphanum {c : Char} (h : c.isAlphanum) : c.toNat < 128 := by
  delta Char.isAlphanum Char.isAlpha Char.isUpper Char.isLower Char.isDigit at *
  grind [UInt32.le_iff_toNat_le, Char.toNat_val]

/-- A text in small letters. -/
def low (cs : List Char) : List Char := cs.map Char.toLower

end Text

namespace Naming

theorem isStart_eq {c : Char} (h : isPart c) : isStart c = !c.isDigit := by
  cases hc : c.isDigit with
  | true =>
    have hne : c ≠ '_' ∧ c ≠ '$' := ⟨(by rintro rfl; cases hc), (by rintro rfl; cases hc)⟩
    simp [isStart, Text.not_isAlpha_of_isDigit hc, hne]
  | false =>
    rw [isPart, Char.isAlphanum, hc, Bool.or_false] at h
    exact h

/-! ### What a text begins with -/

/-- Whether a text begins with a digit. -/
def digitLed (s : String) : Bool := s.toList.head?.any Char.isDigit

/-- A text of characters that can stand in an identifier. -/
structure Worded (s : String) : Prop where
  ne_empty : s ≠ ""
  parts : ∀ c ∈ s.toList, isPart c

theorem Worded.isIdentifier_eq {s : String} (h : Worded s) : isIdentifier s = !digitLed s := by
  rw [isIdentifier, digitLed]
  cases hs : s.toList with
  | nil => exact absurd (String.toList_eq_nil_iff.1 hs) h.ne_empty
  | cons c cs =>
    have hparts := h.parts
    rw [hs, List.forall_mem_cons] at hparts
    simp [isStart_eq hparts.1, List.all_eq_true.2 hparts.2]

theorem worded_iff {s : String} : Worded s ↔ s.toList ≠ [] ∧ ∀ c ∈ s.toList, isPart c :=
  ⟨fun h => ⟨mt String.toList_eq_nil_iff.1 h.ne_empty, h.parts⟩,
    fun h => ⟨mt String.toList_eq_nil_iff.2 h.1, h.2⟩⟩

theorem isPart_of_isStart {c : Char} (h : isStart c) : isPart c := by
  rw [isStart, Bool.or_assoc, Bool.or_eq_true] at h
  rw [isPart, Char.isAlphanum, Bool.or_assoc, Bool.or_assoc, Bool.or_eq_true, Bool.or_eq_true]
  exact h.imp_right Or.inr

/-- An identifier is a text of such characters that begins with no digit. -/
theorem isIdentifier_iff {s : String} : isIdentifier s ↔ Worded s ∧ digitLed s = false := by
  refine ⟨fun h => ?_, fun ⟨hworded, hled⟩ => by rw [hworded.isIdentifier_eq, hled]; rfl⟩
  have hworded : Worded s := by
    rw [worded_iff]
    rw [isIdentifier] at h
    cases hs : s.toList with
    | nil =>
      rw [hs] at h
      cases h
    | cons c cs =>
      rw [hs, Bool.and_eq_true, List.all_eq_true] at h
      exact ⟨List.cons_ne_nil c cs, List.forall_mem_cons.2 ⟨isPart_of_isStart h.1, h.2⟩⟩
  rw [hworded.isIdentifier_eq, Bool.not_eq_true'] at h
  exact ⟨hworded, h⟩

theorem digitLed_append {s : String} (h : s ≠ "") (t : String) :
    digitLed (s ++ t) = digitLed s := by
  obtain ⟨c, cs, hs⟩ := List.exists_cons_of_ne_nil (mt String.toList_eq_nil_iff.1 h)
  rw [digitLed, digitLed, String.toList_append, hs]
  rfl

theorem Worded.append {s t : String} (hs : Worded s) (ht : ∀ c ∈ t.toList, isPart c) :
    Worded (s ++ t) := by
  refine ⟨fun hnil => hs.ne_empty ?_, fun c hc => ?_⟩
  · rw [← String.toList_eq_nil_iff, String.toList_append, List.append_eq_nil_iff] at hnil
    exact String.toList_eq_nil_iff.1 hnil.1
  · rw [String.toList_append, List.mem_append] at hc
    exact hc.elim (hs.parts c) (ht c)

/-! ### Words -/

/-- A text of letters and digits, as segments are. -/
structure Plain (s : String) : Prop where
  ne_empty : s ≠ ""
  alphanum : ∀ c ∈ s.toList, c.isAlphanum

theorem isPart_of_isAlphanum {c : Char} (h : c.isAlphanum) : isPart c := by
  rw [isPart, h]
  rfl

theorem Plain.worded {s : String} (h : Plain s) : Worded s :=
  ⟨h.ne_empty, fun c hc => isPart_of_isAlphanum (h.alphanum c hc)⟩

/-- A text of letters and digits is one word. -/
theorem Plain.pascalCase_eq [Text.Transliteration] [Text.LawfulTransliteration] {s : String}
    (h : Plain s) :
    pascalCase s = String.ofList (pascalWord s.toList) := by
  have hascii : ∀ c ∈ s.toList, c.toNat < 128 := fun c hc => Text.lt_of_isAlphanum (h.alphanum c hc)
  have hne : s.toList ≠ [] := mt String.toList_eq_nil_iff.1 h.ne_empty
  have hwords : words s.toList = [s.toList] := by
    rw [words, Text.toAscii_of_ascii hascii,
      Text.pieces_of_forall_not_cut fun c hc => by rw [h.alphanum c hc]; rfl]
    simp [hne]
  rw [pascalCase, pascalChars, hwords, List.flatMap_singleton]

theorem low_pascalWord (word : List Char) : Text.low (pascalWord word) = Text.low word := by
  have hcapitalize : ∀ cs : List Char, Text.low (capitalize cs) = Text.low cs := by
    intro cs
    cases cs with
    | nil => rfl
    | cons c cs => simp [Text.low, capitalize]
  rw [pascalWord, hcapitalize]
  split
  · rfl
  · simp [Text.low]

theorem head_pascalWord (word : List Char) :
    (pascalWord word).head?.any Char.isDigit = word.head?.any Char.isDigit := by
  have hcapitalize : ∀ cs : List Char,
      (capitalize cs).head?.any Char.isDigit = cs.head?.any Char.isDigit := by
    intro cs
    cases cs with
    | nil => rfl
    | cons c cs => exact Text.isDigit_toUpper c
  rw [pascalWord, hcapitalize]
  split
  · rfl
  · cases word with
    | nil => rfl
    | cons c cs => exact Text.isDigit_toLower c

/-- Writing a text of letters and digits in PascalCase changes nothing but the case of letters. -/
theorem Plain.inPascalCase [Text.Transliteration] [Text.LawfulTransliteration] {s : String}
    (h : Plain s) :
    Plain (pascalCase s) ∧ digitLed (pascalCase s) = digitLed s ∧
      Text.low (pascalCase s).toList = Text.low s.toList := by
  have hlow : Text.low (pascalCase s).toList = Text.low s.toList := by
    rw [h.pascalCase_eq, String.toList_ofList, low_pascalWord]
  refine ⟨⟨fun hnil => h.ne_empty ?_, fun c hc => ?_⟩, ?_, hlow⟩
  · rw [hnil] at hlow
    exact String.toList_eq_nil_iff.1 (List.map_eq_nil_iff.1 hlow.symm)
  · rw [pascalCase, String.toList_ofList] at hc
    exact isAlphanum_of_mem_pascalChars hc
  · rw [h.pascalCase_eq, digitLed, String.toList_ofList, head_pascalWord, digitLed]

end Naming

/-! ### Names of actions -/

namespace Route

open Naming

theorem endsInAsync_iff (s : String) :
    endsInAsync s = true ↔ "async".toList <:+ Text.low s.toList := by
  simp [endsInAsync, Text.endsWith, Text.lower, Text.low]

theorem plain_lowerName (m : HttpMethod) : Plain m.lowerName ∧ digitLed m.lowerName = false := by
  cases m <;> exact ⟨⟨by decide, List.all_eq_true.1 (by decide)⟩, by decide⟩

variable [Text.Transliteration]

/-- The name of an action before `Async` is added. -/
def bareName (s : String) (m : HttpMethod) : String :=
  if Text.startsWith (Text.lower s) m.lowerName || Text.endsWith (Text.lower s) m.lowerName then
    pascalCase s
  else pascalCase s ++ "_" ++ pascalCase m.lowerName

theorem actionName_eq {segment : Option String} (h : ∀ s ∈ segment, s ≠ "") (m : HttpMethod) :
    actionName segment m.lowerName =
      let name := bareName (segment.getD m.lowerName) m
      if endsInAsync name then name else name ++ "Async" := by
  have hlower : Text.lower m.lowerName = m.lowerName := by cases m <;> decide
  unfold actionName bareName
  rw [hlower]
  cases segment with
  | none => rfl
  | some s =>
    split
    · next heq => cases heq
    · next heq => exact absurd (Option.some.inj heq) (h s rfl)
    · next heq => cases heq; rfl

variable [Text.LawfulTransliteration]

theorem worded_bareName {s : String} (h : Plain s) (m : HttpMethod) :
    Worded (bareName s m) ∧ digitLed (bareName s m) = digitLed s := by
  obtain ⟨hplain, hled, -⟩ := h.inPascalCase
  have hmethod : ∀ c ∈ ("_" ++ pascalCase m.lowerName).toList, isPart c := by
    intro c hc
    rw [String.toList_append, List.mem_append] at hc
    rcases hc with hc | hc
    · rw [List.mem_singleton.1 (show c ∈ ['_'] from hc)]
      rfl
    · exact (plain_lowerName m).1.inPascalCase.1.worded.parts c hc
  rw [bareName]
  split
  · exact ⟨hplain.worded, hled⟩
  · rw [String.append_assoc]
    exact ⟨hplain.worded.append hmethod, (digitLed_append hplain.ne_empty _).trans hled⟩

/-- No method begins or ends the word `async`, so a name before `Async` is added has more in it. -/
theorem low_bareName_ne {s : String} (h : Plain s) (m : HttpMethod) :
    Text.low (bareName s m).toList ≠ "async".toList := by
  obtain ⟨-, -, hlow⟩ := h.inPascalCase
  rw [bareName]
  split
  · next hmethod =>
    rw [hlow]
    intro heq
    have hs : Text.lower s = "async" := by rw [Text.lower, ← Text.low, heq, String.ofList_toList]
    rw [hs] at hmethod
    revert hmethod
    cases m <;> decide
  · intro heq
    have hmem : '_' ∈ Text.low (pascalCase s ++ "_" ++ pascalCase m.lowerName).toList := by
      simp [Text.low, String.toList_append]
    rw [heq] at hmem
    revert hmem
    decide

/-- An action's name can be written without quotes unless its segment begins with a digit. -/
theorem worded_actionName {segment : Option String} (hs : ∀ s ∈ segment, Plain s) (m : HttpMethod) :
    Worded (actionName segment m.lowerName) ∧
      digitLed (actionName segment m.lowerName) = segment.any digitLed := by
  obtain ⟨hplain, hled⟩ : Plain (segment.getD m.lowerName) ∧
      digitLed (segment.getD m.lowerName) = segment.any digitLed := by
    cases segment with
    | none => exact plain_lowerName m
    | some s => exact ⟨hs s rfl, rfl⟩
  obtain ⟨hworded, hbare⟩ := worded_bareName hplain m
  rw [actionName_eq (fun s h => (hs s h).ne_empty)]
  dsimp only
  split
  · exact ⟨hworded, hbare.trans hled⟩
  · exact ⟨hworded.append (List.all_eq_true.1 (by decide)),
      ((digitLed_append hworded.ne_empty _).trans hbare).trans hled⟩

end Route

/-! ### Numbers -/

namespace RouteTree

open Naming Route

/-- A name without `Async` at its end is not empty. -/
theorem stem_actionName [Text.Transliteration] [Text.LawfulTransliteration]
    {segment : Option String} (hs : ∀ s ∈ segment, Plain s) (m : HttpMethod) :
    (splitAsync (actionName segment m.lowerName)).1 ≠ [] := by
  have hplain : Plain (segment.getD m.lowerName) := by
    cases segment with
    | none => exact (plain_lowerName m).1
    | some s => exact hs s rfl
  set bare := bareName (segment.getD m.lowerName) m with hbare
  have hpos : 0 < bare.toList.length := List.length_pos_iff.2
    (mt String.toList_eq_nil_iff.1 (worded_bareName hplain m).1.ne_empty)
  have hlong : endsInAsync bare = true → 5 < bare.toList.length := by
    intro hends
    have hsuffix := (endsInAsync_iff bare).1 hends
    have hlength : (Text.low bare.toList).length = bare.toList.length := List.length_map _
    have hle : 5 ≤ (Text.low bare.toList).length := hsuffix.length_le
    refine Nat.lt_of_le_of_ne (hlength ▸ hle) fun heq => low_bareName_ne hplain m ?_
    exact (hsuffix.eq_of_length (by rw [hlength, ← heq]; rfl)).symm
  have hname : ∀ name : String, 0 < name.toList.length →
      (endsInAsync name = true → 5 < name.toList.length) → (splitAsync name).1 ≠ [] := by
    intro name hname hends hnil
    have htake := congrArg List.length hnil
    unfold splitAsync at htake
    dsimp only at htake
    rw [List.length_take, List.length_nil] at htake
    split at htake
    · next h => have := hends h; omega
    · omega
  rw [actionName_eq (fun s h => (hs s h).ne_empty), ← hbare]
  dsimp only
  split
  · exact hname bare hpos hlong
  · refine hname _ ?_ fun _ => ?_ <;>
    · rw [String.toList_append, List.length_append]
      have : "Async".toList.length = 5 := rfl
      omega

/-- A name that is more than `Async` keeps what it begins with when a number is put into it. -/
theorem worded_numbered {name : String} (h : Worded name) (hstem : (splitAsync name).1 ≠ [])
    (n : Nat) : Worded (numbered name n) ∧ digitLed (numbered name n) = digitLed name := by
  have hwhole : (splitAsync name).1 ++ (splitAsync name).2 = name.toList := by
    unfold splitAsync
    dsimp only
    exact List.take_append_drop _ _
  obtain ⟨c, cs, hcons⟩ := List.exists_cons_of_ne_nil hstem
  have hlist : (numbered name n).toList =
      (splitAsync name).1 ++ (toString n).toList ++ (splitAsync name).2 := by
    rw [numbered, String.toList_ofList]
  refine ⟨⟨fun hnil => ?_, fun d hd => ?_⟩, ?_⟩
  · rw [hnil, hcons] at hlist
    exact absurd hlist (List.cons_ne_nil _ _).symm
  · rw [hlist, List.mem_append, List.mem_append] at hd
    rcases hd with (hd | hd) | hd
    · exact h.parts d (hwhole ▸ List.mem_append_left _ hd)
    · rw [Nat.toString_eq_repr, Nat.toList_repr] at hd
      refine isPart_of_isAlphanum ?_
      rw [Char.isAlphanum, Nat.isDigit_of_mem_toDigits (by decide) (by decide) hd, Bool.or_true]
    · exact h.parts d (hwhole ▸ List.mem_append_right _ hd)
  · rw [digitLed, digitLed, hlist, ← hwhole, hcons]
    rfl

/-- A name that is free instead of another one is that name or that name with a number. -/
theorem freshName_eq (taken : List String) (name : String) :
    freshName taken name = name ∨ ∃ n, freshName taken name = numbered name n := by
  unfold freshName
  split
  · cases hfound : ((List.range' 2 (taken.length + 1)).map (numbered name)).find?
        (!taken.contains ·) with
    | none => exact .inl rfl
    | some found =>
      obtain ⟨n, -, hn⟩ := List.mem_map.1 (List.mem_of_find?_eq_some hfound)
      exact .inr ⟨n, hn.symm⟩
  · exact .inl rfl

/-- Whatever names are taken, an action's name is made of parts of identifiers and begins with a
digit exactly if its segment does. -/
theorem worded_freshName [Text.Transliteration] [Text.LawfulTransliteration]
    {segment : Option String} (hs : ∀ s ∈ segment, Plain s) (m : HttpMethod)
    (taken : List String) :
    Worded (freshName taken (actionName segment m.lowerName)) ∧
      digitLed (freshName taken (actionName segment m.lowerName)) = segment.any digitLed := by
  obtain ⟨hworded, hled⟩ := worded_actionName hs m
  rcases freshName_eq taken (actionName segment m.lowerName) with h | ⟨n, h⟩
  · rw [h]
    exact ⟨hworded, hled⟩
  · obtain ⟨hnumbered, hsame⟩ := worded_numbered hworded (stem_actionName hs m) n
    rw [h]
    exact ⟨hnumbered, hsame.trans hled⟩

end RouteTree

end TypedClient
