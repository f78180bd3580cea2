import Mathlib.Data.List.FinRange
import Mathlib.Data.List.Nodup
import Mathlib.Order.WellFounded
import TypedClient.Code.Rendering
import TypedClient.Proofs.Naming.Segments
import TypedClient.Proofs.Path.Place

/-! Sources that share a file. All of their lines stay, in their order, but for an import that
stands before already, with other blanks around it or with the same ones. No line has a line feed in
it, so the lines that stay are read back from the text as they are. -/

namespace TypedClient

namespace Text

theorem pieces_intercalate {c : Char} {texts : List (List Char)} (hne : texts ≠ [])
    (h : ∀ text ∈ texts, c ∉ text) : pieces (· == c) ([c].intercalate texts) = texts := by
  induction texts with
  | nil => exact absurd rfl hne
  | cons text rest ih =>
    rw [List.forall_mem_cons] at h
    cases rest with
    | nil => simpa using pieces_of_not_mem h.1
    | cons next rest =>
      rw [List.intercalate_cons_cons, List.append_assoc, List.singleton_append,
        pieces_append_cut (by simp), pieces_of_not_mem h.1,
        ih (List.cons_ne_nil next rest) h.2]
      rfl

theorem split_intercalate {ls : List String} (hne : ls ≠ []) (h : ∀ l ∈ ls, '\n' ∉ l.toList) :
    split (· == '\n') (String.intercalate "\n" ls) = ls := by
  have hpieces : pieces (· == '\n') (['\n'].intercalate (ls.map String.toList)) =
      ls.map String.toList := by
    refine pieces_intercalate (by simpa using hne) fun text htext => ?_
    obtain ⟨l, hl, rfl⟩ := List.mem_map.1 htext
    exact h l hl
  have hfeed : "\n".toList = ['\n'] := rfl
  rw [split, String.toList_intercalate, hfeed, hpieces, List.map_map]
  simp

theorem mem_of_mem_dropReturn {cs : List Char} {c : Char} (h : c ∈ dropReturn cs) : c ∈ cs := by
  unfold dropReturn at h
  split at h
  · exact List.mem_of_mem_dropLast h
  · exact h

theorem not_mem_of_mem_lines {s line : String} (h : line ∈ lines s) : '\n' ∉ line.toList := by
  have hpiece : ∀ cs ∈ pieces (· == '\n') s.toList, '\n' ∉ cs := fun cs hcs hmem =>
    absurd (not_cut_of_mem_pieces hcs hmem) (by decide)
  obtain ⟨cs, hcs, rfl⟩ := List.mem_map.1 h
  rw [String.toList_ofList]
  rcases List.mem_append.1 hcs with hcs | hlast
  · obtain ⟨piece, hmem, rfl⟩ := List.mem_map.1 hcs
    exact fun hfeed => hpiece piece (List.mem_of_mem_dropLast hmem) (mem_of_mem_dropReturn hfeed)
  · split at hlast
    · exact absurd hlast List.not_mem_nil
    · exact absurd hlast List.not_mem_nil
    · next last _ hsome =>
      rw [List.mem_singleton.1 hlast]
      exact hpiece last (List.mem_of_getLast? hsome)

end Text

namespace Code

variable {seen lines kept : List String}

/-! ### Places -/

/-- A line stays unless it is an import that a line before it is, too. -/
def Stays (lines : List String) (i : Fin lines.length) : Prop :=
  isImport (lines.get i) = true → ∀ j < i, Text.trim (lines.get j) ≠ Text.trim (lines.get i)

instance (lines : List String) : DecidablePred (Stays lines) :=
  fun _ => inferInstanceAs (Decidable (_ → _))

/-- What stays of the lines after the imports of `seen`. -/
def StaysAfter (seen lines : List String) (i : Fin lines.length) : Prop :=
  Stays lines i ∧ (isImport (lines.get i) = true → Text.trim (lines.get i) ∉ seen)

instance (seen lines : List String) : DecidablePred (StaysAfter seen lines) :=
  fun _ => inferInstanceAs (Decidable (_ ∧ _))

theorem isImport_of_trim_eq {line other : String} (h : Text.trim line = Text.trim other) :
    isImport line = isImport other :=
  congrArg (Text.startsWith · "import ") h

section First

variable {line : String} {rest : List String}

theorem staysAfter_zero :
    StaysAfter seen (line :: rest) 0 ↔ (isImport line = true → Text.trim line ∉ seen) :=
  and_iff_right fun _ _ hj => absurd hj (Fin.not_lt_zero _)

/-- The lines after the first one stay as they do by themselves, with the first one seen. -/
theorem staysAfter_succ (i : Fin rest.length) :
    StaysAfter seen (line :: rest) i.succ ↔ StaysAfter (Text.trim line :: seen) rest i := by
  have hbefore : (∀ j < i.succ, Text.trim ((line :: rest).get j) ≠ Text.trim (rest.get i)) ↔
      Text.trim line ≠ Text.trim (rest.get i) ∧
        ∀ j < i, Text.trim (rest.get j) ≠ Text.trim (rest.get i) := by
    rw [Fin.forall_fin_succ]
    simp only [Fin.succ_lt_succ_iff, Fin.succ_pos, forall_const]
    rfl
  show (isImport (rest.get i) = true →
      ∀ j < i.succ, Text.trim ((line :: rest).get j) ≠ Text.trim (rest.get i)) ∧
    (isImport (rest.get i) = true → Text.trim (rest.get i) ∉ seen) ↔ _
  rw [hbefore, StaysAfter, Stays, List.mem_cons, not_or]
  constructor
  · rintro ⟨hstays, hnew⟩
    exact ⟨fun hi => (hstays hi).2, fun hi => ⟨Ne.symm (hstays hi).1, hnew hi⟩⟩
  · rintro ⟨hstays, hnew⟩
    exact ⟨fun hi => ⟨Ne.symm (hnew hi).1, hstays hi⟩, fun hi => (hnew hi).2⟩

/-- A line that is no import, or an import seen before, need not be seen. -/
theorem staysAfter_cons (h : isImport line = true → Text.trim line ∈ seen) (i : Fin rest.length) :
    StaysAfter (Text.trim line :: seen) rest i ↔ StaysAfter seen rest i := by
  refine and_congr_right fun _ => imp_congr_right fun hi => not_congr ?_
  rw [List.mem_cons]
  refine or_iff_right_of_imp fun heq => ?_
  rw [heq]
  exact h ((isImport_of_trim_eq heq).symm.trans hi)

theorem map_filter_finRange (p : Fin (line :: rest).length → Bool) :
    ((List.finRange (line :: rest).length).filter p).map (line :: rest).get =
      (if p 0 then [line] else []) ++
        ((List.finRange rest.length).filter fun i => p i.succ).map rest.get := by
  have hfin : List.finRange (line :: rest).length =
      0 :: (List.finRange rest.length).map Fin.succ := List.finRange_succ
  rw [hfin, List.filter_cons, List.filter_map]
  split <;> simp [List.map_map] <;> rfl

end First

/-- The loop keeps the lines at the places that stay. -/
theorem mergeLines_eq (seen lines : List String) : mergeLines seen lines =
    ((List.finRange lines.length).filter (StaysAfter seen lines ·)).map lines.get := by
  induction lines generalizing seen with
  | nil => rfl
  | cons line rest ih =>
    have hrest : ∀ seen', (isImport line = true → Text.trim line ∈ seen') →
        ((List.finRange rest.length).filter fun i =>
          decide (StaysAfter (Text.trim line :: seen') rest i)).map rest.get =
            mergeLines seen' rest := by
      intro seen' h
      simp only [staysAfter_cons h, ih]
    rw [mergeLines, map_filter_finRange]
    simp only [staysAfter_zero, staysAfter_succ, List.contains_eq_mem, decide_eq_true_eq]
    split
    · next himport =>
      split
      · next hseen =>
        rw [hrest seen fun _ => hseen, if_neg (by simp [himport, hseen]), List.nil_append]
      · next hnew => rw [ih, if_pos (by simp [hnew]), List.singleton_append]
    · next hplain =>
      rw [hrest seen fun h => absurd h hplain, if_pos (by simp [hplain]), List.singleton_append]

/-! ### What is kept -/

/-- The lines that stay, in their order. -/
def staying (lines : List String) : List String :=
  ((List.finRange lines.length).filter (Stays lines ·)).map lines.get

theorem mergeLines_nil (lines : List String) : mergeLines [] lines = staying lines := by
  rw [mergeLines_eq, staying]
  simp [StaysAfter]

/-- Lines that are no imports are neither lost nor repeated, and keep their order. -/
theorem others_staying (lines : List String) :
    (staying lines).filter (!isImport ·) = lines.filter (!isImport ·) := by
  have hstays : ∀ i, ((!isImport (lines.get i)) && decide (Stays lines i)) =
      !isImport (lines.get i) := by
    intro i
    cases himport : isImport (lines.get i) with
    | true => rfl
    | false =>
      have hstays : Stays lines i := fun h => absurd (himport.symm.trans h) Bool.false_ne_true
      rw [decide_eq_true hstays]
      rfl
  rw [staying, List.filter_map, List.filter_filter]
  simp only [Function.comp_apply, hstays]
  conv_rhs => rw [← List.map_get_finRange lines, List.filter_map]
  simp only [Function.comp_def]

/-- The first of all lines that are the same when trimmed stays. -/
theorem exists_stays {line : String} (h : line ∈ lines) :
    ∃ i, Text.trim (lines.get i) = Text.trim line ∧ Stays lines i := by
  obtain ⟨i, hi⟩ := List.mem_iff_get.1 h
  obtain ⟨first, hfirst, hleast⟩ := WellFounded.has_min
    (wellFounded_lt (α := Fin lines.length)) {i | Text.trim (lines.get i) = Text.trim line}
    ⟨i, congrArg Text.trim hi⟩
  exact ⟨first, hfirst, fun _ j hj heq => hleast j (heq.trans hfirst) hj⟩

theorem count_staying {line : String} (hline : line ∈ lines) (himport : isImport line = true) :
    (((staying lines).filter isImport).map Text.trim).count (Text.trim line) = 1 := by
  rw [staying, List.filter_map, List.map_map]
  refine List.count_eq_one_of_mem (List.Nodup.map_on ?_ ?_) ?_
  · -- of two places with the same import the later one does not stay
    intro i hi j hj heq
    simp only [List.mem_filter, List.mem_finRange, true_and, Function.comp_apply,
      decide_eq_true_eq] at hi hj heq
    rcases lt_trichotomy i j with hlt | rfl | hlt
    · exact absurd heq (hj.1 hj.2 i hlt)
    · rfl
    · exact absurd heq.symm (hi.1 hi.2 j hlt)
  · exact ((List.nodup_finRange _).filter _).filter _
  · obtain ⟨i, hi, hstays⟩ := exists_stays hline
    refine List.mem_map.2 ⟨i, ?_, hi⟩
    simp only [List.mem_filter, List.mem_finRange, true_and, Function.comp_apply,
      decide_eq_true_eq]
    exact ⟨hstays, (isImport_of_trim_eq hi).trans himport⟩

theorem staying_subset (lines : List String) : staying lines ⊆ lines := by
  intro line hline
  obtain ⟨i, -, rfl⟩ := List.mem_map.1 hline
  exact List.get_mem lines i

theorem staying_ne_nil (h : lines ≠ []) : staying lines ≠ [] := by
  obtain ⟨line, hline⟩ := List.exists_mem_of_ne_nil lines h
  obtain ⟨i, -, hstays⟩ := exists_stays hline
  exact List.ne_nil_of_mem (List.mem_map_of_mem (List.mem_filter.2
    ⟨List.mem_finRange i, decide_eq_true hstays⟩))

/-- What is kept of lines. -/
structure Merges (lines kept : List String) : Prop where
  /-- What is kept are the lines at the places where they stay, in order and as they are. -/
  places : kept = staying lines
  others : kept.filter (!isImport ·) = lines.filter (!isImport ·)
  once : ∀ line ∈ lines, isImport line = true →
    ((kept.filter isImport).map Text.trim).count (Text.trim line) = 1

/-- Merging removes nothing but repeated imports. The text that is made of sources with lines in
them ends in a line feed. Split at the line feeds before that one, it is all lines of the sources in
order, each as it is, but for the imports that stand before already. -/
theorem merge_keeps_lines {sources : List String} (h : sources.flatMap Text.lines ≠ []) :
    ∃ text, merge sources = text ++ "\n" ∧
      Merges (sources.flatMap Text.lines) (Text.split (· == '\n') text) := by
  refine ⟨_, rfl, ?_⟩
  rw [mergeLines_nil, Text.split_intercalate (staying_ne_nil h)]
  · exact ⟨rfl, others_staying _, fun _ => count_staying⟩
  · intro line hline
    obtain ⟨source, -, hsource⟩ := List.mem_flatMap.1 (staying_subset _ hline)
    exact Text.not_mem_of_mem_lines hsource

/-- Sources of which two import the same, in different forms; one of them is empty. -/
def sharedSources : List String :=
  ["import A from a;\r\nimport B;\nlet x;\n", "", "  import A from a; \n\timport C;\n\nlet x;"]

theorem merge_keeps_lines_shared : sharedSources.flatMap Text.lines ≠ [] ∧
    ∃ text, merge sharedSources = text ++ "\n" ∧ Text.split (· == '\n') text =
      ["import A from a;", "import B;", "let x;", "\timport C;", "", "let x;"] := by
  have hlines : sharedSources.flatMap Text.lines ≠ [] := by decide +kernel
  obtain ⟨text, htext, hmerges⟩ := merge_keeps_lines hlines
  exact ⟨hlines, text, htext, hmerges.places.trans (by decide +kernel)⟩

end Code

end TypedClient
