import TypedClient.Proofs.Path.Place
import TypedClient.Route
import TypedClient.Text.AsciiTable

/-! Segments of a path that is put together. A piece folds into the segment before it or begins one
of its own; once one has begun, nothing that follows reaches back over it. So where the second part
of a path begins a segment, the segments of the whole are those of its parts in a row. Separators
leave no pieces by themselves, so it does not matter how many of them stand in a row. -/

namespace TypedClient

namespace Text

theorem trimChars_of_forall_not_blank {cs : List Char} (h : ∀ c ∈ cs, isBlank c = false) :
    trimChars cs = cs := by
  have hdrop : ∀ ds : List Char, (∀ c ∈ ds, isBlank c = false) → ds.dropWhile isBlank = ds := by
    intro ds hds
    cases ds with
    | nil => rfl
    | cons c ds => simp [hds c List.mem_cons_self]
  rw [trimChars, hdrop cs h, hdrop cs.reverse (by simpa using h), List.reverse_reverse]

end Text

namespace Route

/-! ### Pieces that follow a segment -/

theorem addPiece_append [Text.Transliteration] {segments : List Segment} (h : segments ≠ [])
    (before : List Segment)
    (piece : List Char) :
    addPiece (segments ++ before) piece = addPiece segments piece ++ before ∧
      addPiece segments piece ≠ [] := by
  obtain ⟨last, earlier, rfl⟩ := List.exists_cons_of_ne_nil h
  unfold addPiece
  cases wholeParameter? piece with
  | some name => exact ⟨rfl, List.cons_ne_nil _ _⟩
  | none =>
    obtain ⟨text, found⟩ := inlineParameters false piece
    cases hname : Naming.pascalChars text with
    | nil => simp [hname]
    | cons c cs => simp [hname]

theorem foldl_addPiece_append [Text.Transliteration] {segments : List Segment} (h : segments ≠ [])
    (before : List Segment)
    (pieces : List (List Char)) :
    pieces.foldl addPiece (segments ++ before) = pieces.foldl addPiece segments ++ before := by
  induction pieces generalizing segments with
  | nil => rfl
  | cons piece pieces ih =>
    obtain ⟨hadd, hne⟩ := addPiece_append h before piece
    rw [List.foldl_cons, List.foldl_cons, hadd, ih hne]

/-- A piece that begins a segment begins it wherever it stands. -/
theorem addPiece_eq_append [Text.Transliteration] {piece : List Char} (h : addPiece [] piece ≠ [])
    (before : List Segment) : addPiece before piece = addPiece [] piece ++ before := by
  unfold addPiece at h ⊢
  cases hwhole : wholeParameter? piece with
  | some name => simp [hwhole] at h
  | none =>
    rw [hwhole] at h
    dsimp only at h ⊢
    generalize inlineParameters false piece = inlined at h ⊢
    obtain ⟨text, found⟩ := inlined
    cases hname : Naming.pascalChars text with
    | nil => simp [hname] at h
    | cons c cs => simp

/-! ### Paths of two parts -/

/-- Whether the first piece of a path that is not blank begins a segment: it is not a parameter and
has letters or digits. -/
def Begins [Text.Transliteration] (cs : List Char) : Prop := ∃ piece ∈
    (pathPieces cs).head?, addPiece [] piece ≠ []

instance [Text.Transliteration] (cs : List Char) : Decidable (Begins cs) :=
  inferInstanceAs (Decidable (∃ piece ∈ (pathPieces cs).head?, addPiece [] piece ≠ []))

/-- Whether a character stands between the pieces of a path. -/
def IsSeparator (c : Char) : Prop := c = '/' ∨ c = '\\'

instance (c : Char) : Decidable (IsSeparator c) := inferInstanceAs (Decidable (_ ∨ _))

theorem pathPieces_append_separator {c : Char} (hc : IsSeparator c) (a b : List Char) :
    pathPieces (a ++ c :: b) = pathPieces a ++ pathPieces b := by
  have hcut : (decide (c = '/') || decide (c = '\\')) = true := by
    simpa [IsSeparator] using hc
  rw [pathPieces, Text.pieces_append_cut hcut, List.map_append, List.filter_append]
  rfl

theorem pathPieces_append (a b : List Char) :
    pathPieces (a ++ '/' :: b) = pathPieces a ++ pathPieces b :=
  pathPieces_append_separator (.inl rfl) a b

theorem pathPieces_slash (cs : List Char) : pathPieces ('/' :: cs) = pathPieces cs :=
  pathPieces_append [] cs

theorem segmentsOf_append [Text.Transliteration] {a b : List Char} (h : Begins b) :
    segmentsOf (a ++ '/' :: b) = segmentsOf a ++ segmentsOf b := by
  obtain ⟨piece, hpiece, hbegins⟩ := h
  obtain ⟨rest, hrest⟩ := List.head?_eq_some_iff.1 hpiece
  rw [segmentsOf, segmentsOf, segmentsOf, pathPieces_append, hrest, List.foldl_append,
    List.foldl_cons, List.foldl_cons, addPiece_eq_append hbegins,
    foldl_addPiece_append hbegins, List.reverse_append, List.map_append]

/-! ### Separators -/

/-- Any number of separators before a path. -/
theorem pathPieces_separators_append {s : List Char} (hs : ∀ c ∈ s, IsSeparator c)
    (b : List Char) : pathPieces (s ++ b) = pathPieces b := by
  induction s with
  | nil => rfl
  | cons c s ih =>
    rw [List.forall_mem_cons] at hs
    exact (pathPieces_append_separator hs.1 [] (s ++ b)).trans (ih hs.2)

/-- Any number of separators between two paths, but one at least. -/
theorem pathPieces_append_separators {s : List Char} (hs : ∀ c ∈ s, IsSeparator c) (hne : s ≠ [])
    (a b : List Char) : pathPieces (a ++ s ++ b) = pathPieces a ++ pathPieces b := by
  obtain ⟨c, rest, rfl⟩ := List.exists_cons_of_ne_nil hne
  rw [List.forall_mem_cons] at hs
  rw [List.append_assoc, List.cons_append, pathPieces_append_separator hs.1,
    pathPieces_separators_append hs.2]

/-- Any number of separators after a path. -/
theorem pathPieces_append_of_separators {s : List Char} (hs : ∀ c ∈ s, IsSeparator c)
    (a : List Char) : pathPieces (a ++ s) = pathPieces a := by
  by_cases hne : s = []
  · rw [hne, List.append_nil]
  · have hpieces := pathPieces_append_separators hs hne a []
    rwa [List.append_nil, show pathPieces [] = [] from rfl, List.append_nil] at hpieces

theorem segments_congr [Text.Transliteration] {a b : String}
    (h : pathPieces a.toList = pathPieces b.toList) :
    segments a = segments b := by
  rw [segments, segmentsOf, h]
  rfl

/-! ### Pieces that begin a segment -/

/-- The name of the segment that a piece makes by itself, if it is no parameter. -/
def pieceName [Text.Transliteration] (piece : List Char) : List Char :=
  Naming.pascalChars (inlineParameters false piece).1

/-- A piece that is nothing but a name in braces. -/
def IsParameter (piece : List Char) : Prop :=
  ∃ name, name ≠ [] ∧ (∀ c ∈ name, isParameterChar c = true) ∧ piece = '{' :: (name ++ ['}'])

theorem parameter?_eq_some_nil_iff {cs name : List Char} : parameter? cs = some (name, []) ↔
    name ≠ [] ∧ (∀ c ∈ name, isParameterChar c = true) ∧ cs = name ++ ['}'] := by
  constructor
  · intro h
    have hall := List.all_takeWhile (p := isParameterChar) (l := cs)
    have hcs := List.takeWhile_append_dropWhile (p := isParameterChar) (l := cs)
    unfold parameter? at h
    split at h
    · next first others rest hname hrest =>
      cases h
      rw [hname] at hall hcs
      rw [hrest] at hcs
      exact ⟨List.cons_ne_nil _ _, List.all_eq_true.1 hall, hcs.symm⟩
    · cases h
  · rintro ⟨hne, hall, rfl⟩
    obtain ⟨first, others, rfl⟩ := List.exists_cons_of_ne_nil hne
    have hclosed : isParameterChar '}' = false := rfl
    unfold parameter?
    rw [List.takeWhile_append_of_pos hall, List.dropWhile_append_of_pos hall]
    simp [hclosed]

theorem wholeParameter?_eq_none_iff {piece : List Char} :
    wholeParameter? piece = none ↔ ¬ IsParameter piece := by
  have hsome : (∃ name, wholeParameter? piece = some name) ↔ IsParameter piece := by
    unfold wholeParameter? IsParameter
    split
    · next cs =>
      simp only [← parameter?_eq_some_nil_iff, List.cons.injEq, true_and]
      cases parameter? cs with
      | none => simp
      | some p => obtain ⟨name, _ | _⟩ := p <;> simp
    · next hbrace =>
      refine iff_of_false (by simp) ?_
      rintro ⟨name, -, -, rfl⟩
      exact hbrace _ rfl
  rw [← hsome, not_exists, Option.eq_none_iff_forall_ne_some]

theorem begins_iff [Text.Transliteration] {cs : List Char} : Begins cs ↔
    ∃ piece ∈ (pathPieces cs).head?, ¬ IsParameter piece ∧ pieceName piece ≠ [] := by
  refine exists_congr fun piece => and_congr_right fun _ => ?_
  rw [← wholeParameter?_eq_none_iff, pieceName]
  unfold addPiece
  cases wholeParameter? piece with
  | some name => simp
  | none =>
    generalize inlineParameters false piece = inlined
    obtain ⟨text, found⟩ := inlined
    cases hname : Naming.pascalChars text with
    | nil => simp [hname]
    | cons c cs => simp [hname]

/-- Segments compose: where the first piece of the second path is no parameter and has a name, the
segments of the two paths, joined, are those of the first one and then those of the second one. How
many separators stand before, between and after the paths, and of which kind, does not matter. -/
theorem segments_compose [Text.Transliteration] (a b : String) :
    ((∀ piece ∈ (pathPieces b.toList).head?, ¬ IsParameter piece ∧ pieceName piece ≠ []) →
      segments (a ++ "/" ++ b) = segments a ++ segments b) ∧
    ∀ s : String, (∀ c ∈ s.toList, IsSeparator c) →
      segments (s ++ a) = segments a ∧ segments (a ++ s) = segments a ∧
        (s ≠ "" → segments (a ++ s ++ b) = segments (a ++ "/" ++ b)) := by
  have hslash : (a ++ "/" ++ b).toList = a.toList ++ '/' :: b.toList := by
    rw [String.toList_append, String.toList_append, List.append_assoc]
    rfl
  refine ⟨fun hfirst => ?_, fun s hs => ⟨?_, ?_, fun hne => ?_⟩⟩
  · cases hpieces : pathPieces b.toList with
    | nil =>
      have hnone : segments b = [] := by
        rw [segments, segmentsOf, hpieces]
        rfl
      rw [hnone, List.append_nil]
      refine segments_congr ?_
      rw [hslash, pathPieces_append, hpieces, List.append_nil]
    | cons piece rest =>
      have hhead : piece ∈ (pathPieces b.toList).head? := by rw [hpieces]; rfl
      have hbegins : Begins b.toList := begins_iff.2 ⟨piece, hhead, hfirst piece hhead⟩
      rw [segments, hslash, segmentsOf_append hbegins, List.map_append]
      rfl
  · refine segments_congr ?_
    rw [String.toList_append]
    exact pathPieces_separators_append hs a.toList
  · refine segments_congr ?_
    rw [String.toList_append]
    exact pathPieces_append_of_separators hs a.toList
  · refine segments_congr ?_
    have hnil : s.toList ≠ [] := fun hnil => hne (by simpa using hnil)
    rw [hslash, String.toList_append, String.toList_append, pathPieces_append_separators hs hnil,
      pathPieces_append]

/-- Parameters after a segment fold into it, on either side of the joint. -/
theorem segments_compose_photos :
    (∀ piece ∈ (pathPieces "photos.{size}/{id}".toList).head?,
      ¬ IsParameter piece ∧ pieceName piece ≠ []) ∧
    segments ("/pets/{petId}" ++ "/" ++ "photos.{size}/{id}") =
      segments "/pets/{petId}" ++ segments "photos.{size}/{id}" ∧
    segments ("/pets/{petId}" ++ "\\//" ++ "photos.{size}/{id}") =
      segments ("/pets/{petId}" ++ "/" ++ "photos.{size}/{id}") := by
  have hfirst : ∀ piece ∈ (pathPieces "photos.{size}/{id}".toList).head?,
      ¬ IsParameter piece ∧ pieceName piece ≠ [] := by
    simp only [← wholeParameter?_eq_none_iff]
    decide +kernel
  obtain ⟨hcompose, hseparators⟩ :=
    segments_compose "/pets/{petId}" "photos.{size}/{id}"
  exact ⟨hfirst, hcompose hfirst, (hseparators "\\//" (by simp [IsSeparator])).2.2 (by decide)⟩

/-! ### Literal pieces -/

variable [Text.Transliteration]

/-- A text that is one piece of a path and has no parameters, and that makes a segment. -/
structure Literal (s : String) : Prop where
  plain : ∀ c ∈ s.toList, c ∉ ['{', '}', '/', '\\'] ∧ Text.isBlank c = false
  named : Naming.pascalCase s ≠ ""

theorem inlineParameters_of_forall_ne_brace {cs : List Char} (h : ∀ c ∈ cs, c ≠ '{')
    (found : Bool) : inlineParameters found cs = (cs, found) := by
  induction cs with
  | nil => rw [inlineParameters]
  | cons c cs ih =>
    rw [List.forall_mem_cons] at h
    rw [inlineParameters, if_neg h.1, ih h.2]

variable {s : String}

theorem Literal.ne_nil (hs : Literal s) : s.toList ≠ [] := by
  intro hnil
  refine hs.named ?_
  rw [Naming.pascalCase, hnil]
  rfl

theorem Literal.addPiece (hs : Literal s) :
    addPiece [] s.toList = [⟨Naming.pascalChars s.toList, false⟩] := by
  have hbrace : ∀ c ∈ s.toList, c ≠ '{' := fun c hc heq => by
    have hnot := (hs.plain c hc).1
    simp [heq] at hnot
  have hwhole : wholeParameter? s.toList = none := by
    unfold wholeParameter?
    split
    · next cs heq => exact absurd rfl (hbrace '{' (heq ▸ List.mem_cons_self))
    · rfl
  obtain ⟨c, cs, hname⟩ : ∃ c cs, Naming.pascalChars s.toList = c :: cs :=
    List.exists_cons_of_ne_nil fun hnil => hs.named (by rw [Naming.pascalCase, hnil])
  simp only [Route.addPiece, hwhole, inlineParameters_of_forall_ne_brace hbrace, hname]

theorem Literal.pathPieces (hs : Literal s) : pathPieces s.toList = [s.toList] := by
  have hcut : ∀ c ∈ s.toList, (decide (c = '/') || decide (c = '\\')) = false := by
    intro c hc
    have hnot := (hs.plain c hc).1
    simp only [List.mem_cons, not_or] at hnot
    simp [hnot]
  rw [Route.pathPieces, Text.pieces_of_forall_not_cut (by simpa using hcut), List.map_singleton,
    Text.trimChars_of_forall_not_blank fun c hc => (hs.plain c hc).2]
  simp [hs.ne_nil]

theorem Literal.segments (hs : Literal s) : segments ("/" ++ s) = [Naming.pascalCase s] := by
  have hpieces : Route.pathPieces ("/" ++ s).toList = [s.toList] := by
    rw [String.toList_append]
    exact (pathPieces_slash s.toList).trans hs.pathPieces
  rw [Route.segments, segmentsOf, hpieces, List.foldl_cons, hs.addPiece]
  rfl

/-- A literal piece before a path that begins a segment is the first segment of both. -/
theorem Literal.segments_append (hs : Literal s) {path : String} {cs : List Char}
    (hrooted : path.toList = '/' :: cs) (hbegins : Begins path.toList) :
    Route.segments ("/" ++ s ++ path) = Naming.pascalCase s :: Route.segments path := by
  have hbegins : Begins cs := by
    rwa [hrooted, Begins, pathPieces_slash] at hbegins
  have hpath : segmentsOf path.toList = segmentsOf cs := by
    rw [hrooted]
    exact segmentsOf_append (a := []) hbegins
  rw [Route.segments, String.toList_append, hrooted, segmentsOf_append hbegins, List.map_append,
    ← Route.segments, hs.segments, Route.segments, hpath]
  rfl

end Route

end TypedClient
