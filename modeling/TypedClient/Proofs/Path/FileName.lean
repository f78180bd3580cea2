import TypedClient.Proofs.Path.Place

/-! Names of files. A path is ordinary when all of its pieces are names: then it leads from a
directory along its pieces, two such paths lead to the same place only if they are the same, and
what the last piece says of the file, the directory does not change. -/

namespace TypedClient

namespace Text

/-- A text is put together again from its pieces in one way. -/
theorem pieces_injective {c : Char} {as bs : List Char}
    (h : pieces (· = c) as = pieces (· = c) bs) : as = bs := by
  induction as generalizing bs with
  | nil =>
    cases bs with
    | nil => rfl
    | cons b bs =>
      simp only [pieces] at h
      split at h
      · exact absurd (List.cons.inj h).2.symm (pieces_ne_nil _ bs)
      · split at h <;> simp at h
  | cons a as ih =>
    cases bs with
    | nil =>
      simp only [pieces] at h
      split at h
      · exact absurd (List.cons.inj h).2 (pieces_ne_nil _ as)
      · split at h <;> simp at h
    | cons b bs =>
      obtain ⟨p, ps, hps⟩ := List.exists_cons_of_ne_nil (pieces_ne_nil (· = c) as)
      obtain ⟨q, qs, hqs⟩ := List.exists_cons_of_ne_nil (pieces_ne_nil (· = c) bs)
      simp only [pieces, hps, hqs, decide_eq_true_eq] at h
      by_cases ha : a = c <;> by_cases hb : b = c <;> simp only [ha, hb, if_true, if_false] at h
      · rw [ha, hb, ih (hps.trans ((List.cons.inj h).2.trans hqs.symm))]
      · simp at h
      · simp at h
      · simp only [List.cons.injEq] at h
        rw [h.1.1, ih (hps.trans (by rw [h.1.2, h.2, hqs]))]

/-- A text ends in its last piece, after a character at which it was cut if there is one. -/
theorem exists_last_piece (c : Char) (cs : List Char) :
    ∃ front last, cs = front ++ last ∧ (front = [] ∨ front.getLast? = some c) ∧ c ∉ last ∧
      last ∈ pieces (· = c) cs := by
  have hone : ∀ last : List Char, c ∉ last → pieces (· = c) last = [last] :=
    fun _ hlast => pieces_of_not_mem hlast
  by_cases hc : c ∈ cs
  · obtain ⟨after, before, hreversed, hafter⟩ := List.eq_append_cons_of_mem (List.mem_reverse.2 hc)
    have hcs : cs = before.reverse ++ c :: after.reverse := by
      simpa using congrArg List.reverse hreversed
    have hlast : c ∉ after.reverse := fun h => hafter (List.mem_reverse.1 h)
    refine ⟨before.reverse ++ [c], after.reverse, ?_, .inr List.getLast?_concat, hlast, ?_⟩
    · rw [hcs, List.append_assoc]
      rfl
    · rw [hcs, pieces_append_cut (decide_eq_true rfl), hone _ hlast]
      exact List.mem_append_right _ (List.mem_singleton.2 rfl)
  · exact ⟨[], cs, rfl, .inl rfl, hc, by rw [hone cs hc]; exact List.mem_singleton.2 rfl⟩

end Text

namespace Path

open Place

/-- Whether a piece of a path is a name: it is not empty, and not one or two dots. -/
def IsName (piece : List Char) : Prop := piece ∉ [[], ['.'], ['.', '.']]

instance (piece : List Char) : Decidable (IsName piece) := inferInstanceAs (Decidable (_ ∉ _))

/-- Whether all pieces of a path are names. -/
def Ordinary (path : String) : Prop := ∀ piece ∈ Text.pieces (· = '/') path.toList, IsName piece

instance (path : String) : Decidable (Ordinary path) := inferInstanceAs (Decidable (∀ _ ∈ _, _))

variable {path name dir : String}

/-! ### Places -/

theorem enter_name (p : Place) {piece : List Char} (h : IsName piece) :
    p.enter piece = ⟨p.start, p.names ++ [piece]⟩ := by
  simp only [IsName, List.mem_cons, List.not_mem_nil, or_false, not_or] at h
  rw [enter, if_neg (not_or.2 ⟨h.1, h.2.1⟩), if_neg h.2.2]

/-- An ordinary path leads along its pieces. -/
theorem follow_ordinary (h : Ordinary path) (p : Place) :
    p.follow path.toList = ⟨p.start, p.names ++ Text.pieces (· = '/') path.toList⟩ := by
  unfold Ordinary at h
  rw [follow]
  generalize Text.pieces (· = '/') path.toList = pieces at h ⊢
  induction pieces generalizing p with
  | nil => rw [List.append_nil]; rfl
  | cons piece pieces ih =>
    rw [List.forall_mem_cons] at h
    rw [List.foldl_cons, enter_name p h.1, ih _ h.2, List.append_assoc]
    rfl

theorem not_isAbsolute_of_ordinary (h : Ordinary path) : isAbsolute path = false := by
  unfold isAbsolute
  refine decide_eq_false fun hhead => ?_
  obtain ⟨rest, hrest⟩ := List.head?_eq_some_iff.1 hhead
  unfold Ordinary at h
  rw [hrest, Text.pieces, if_pos (decide_eq_true rfl)] at h
  exact h [] List.mem_cons_self List.mem_cons_self

theorem place_join_ordinary (h : Ordinary path) :
    place (join dir path) =
      ⟨(place dir).start, (place dir).names ++ Text.pieces (· = '/') path.toList⟩ := by
  rw [place_join (not_isAbsolute_of_ordinary h), follow_ordinary h]

/-- Ordinary paths from one directory lead to different places. -/
theorem eq_of_place_join (h : Ordinary path) (hname : Ordinary name)
    (heq : place (join dir path) = place (join dir name)) : path = name := by
  rw [place_join_ordinary h, place_join_ordinary hname, Place.mk.injEq, and_iff_right rfl,
    List.append_right_inj] at heq
  exact String.toList_injective (Text.pieces_injective heq)

/-- A text without slashes that is a name is an ordinary path. -/
theorem ordinary_of_name (hslash : '/' ∉ path.toList) (h : IsName path.toList) :
    Ordinary path := by
  have hpieces : Text.pieces (· = '/') path.toList = [path.toList] :=
    Text.pieces_of_not_mem hslash
  intro piece hpiece
  rw [hpieces, List.mem_singleton] at hpiece
  rwa [hpiece]

/-- An ordinary path stays in every directory. -/
theorem staysIn_ordinary (h : Ordinary path) (p : Place) : StaysIn p (place path) := by
  rw [place_of_relative (not_isAbsolute_of_ordinary h), follow_ordinary h]
  refine ⟨.inr (Nat.zero_le _), ?_, ?_⟩
  · simp
  · simpa [here] using Text.pieces_ne_nil _ _

/-! ### Names at the end -/

theorem trimReversed_append {last : List Char} (hslash : '/' ∉ last) (hname : last ∉ [[], ['.']])
    (more : List Char) : trimReversed (last ++ more) = last ++ more := by
  match last with
  | [] => exact absurd List.mem_cons_self hname
  | [c] =>
    have hc : c ≠ '/' := fun h => hslash (by simp [h])
    have hdot : c ≠ '.' := fun h => hname (by simp [h])
    unfold trimReversed
    split <;> simp_all
  | c :: c' :: cs =>
    have hc : c ≠ '/' := fun h => hslash (by simp [h])
    have hc' : c' ≠ '/' := fun h => hslash (by simp [h])
    unfold trimReversed
    split <;> simp_all

/-- What a path begins with does not reach into a name at its end. -/
theorem splitStart_append {front last : List Char} (hfront : front = [] ∨ front.getLast? = some '/')
    (hlast : '/' ∉ last) (hname : IsName last) :
    ∃ body, (splitStart (front ++ last)).2 = body ++ last ∧
      (body = [] ∨ body.getLast? = some '/') := by
  simp only [IsName, List.mem_cons, List.not_mem_nil, or_false, not_or] at hname
  obtain ⟨hnil, hdot, -⟩ := hname
  unfold splitStart
  split
  · next cs heq =>
    cases front with
    | nil => exact absurd (by rw [← List.nil_append last, heq]; exact List.mem_cons_self) hlast
    | cons c front =>
      obtain ⟨rfl, rfl⟩ := List.cons.inj heq
      refine ⟨front, rfl, ?_⟩
      cases front with
      | nil => exact .inl rfl
      | cons c front => exact .inr (by simpa using hfront)
  · next heq =>
    cases front with
    | nil => exact absurd heq hdot
    | cons c front => exact absurd (List.append_eq_nil_iff.1 (List.cons.inj heq).2).2 hnil
  · next cs heq =>
    match front with
    | [] => exact absurd (by rw [← List.nil_append last, heq]; simp) hlast
    | [c] =>
      obtain ⟨rfl, -⟩ := List.cons.inj heq
      simp at hfront
    | c :: c' :: front =>
      obtain ⟨rfl, rfl⟩ := List.cons.inj (List.cons.inj heq).2
      exact ⟨'/' :: front, rfl, .inr (by simpa using hfront)⟩
  · exact ⟨front, rfl, hfront⟩

/-- The name that a path ends in. -/
theorem fileName?_eq_some {front last : List Char} (hpath : path.toList = front ++ last)
    (hfront : front = [] ∨ front.getLast? = some '/') (hlast : '/' ∉ last) (hname : IsName last) :
    fileName? path = some last := by
  obtain ⟨body, hbody, hends⟩ := splitStart_append hfront hlast hname
  have hreversed : '/' ∉ last.reverse := fun h => hlast (List.mem_reverse.1 h)
  simp only [IsName, List.mem_cons, List.not_mem_nil, or_false, not_or] at hname
  obtain ⟨hnil, hdot, hdots⟩ := hname
  have htrim : trimEnd (body ++ last) = body ++ last := by
    rw [trimEnd, List.reverse_append, trimReversed_append hreversed, List.reverse_append,
      List.reverse_reverse, List.reverse_reverse]
    intro h
    simp only [List.mem_cons, List.not_mem_nil, or_false, List.reverse_eq_nil_iff] at h
    rcases h with h | h
    · exact hnil h
    · exact hdot (by simpa using congrArg List.reverse h)
  have hsplit : (splitLast (body ++ last)).2 = last := by
    have hall : ∀ c ∈ last.reverse, (c != '/') = true := fun c hc => by
      simpa using fun h : c = '/' => hreversed (h ▸ hc)
    have hrest : body.reverse.takeWhile (· != '/') = [] := by
      rcases hends with rfl | hends
      · rfl
      · rw [← List.head?_reverse] at hends
        obtain ⟨rest, hrest⟩ := List.head?_eq_some_iff.1 hends
        rw [hrest]
        rfl
    simp only [splitLast]
    rw [List.reverse_append, List.takeWhile_append_of_pos hall, hrest, List.append_nil,
      List.reverse_reverse]
  rw [fileName?, hpath, hbody, htrim]
  split
  · next h => exact absurd (List.append_eq_nil_iff.1 h).2 hnil
  · rw [hsplit, if_neg hdots]

theorem exists_toList_join (dir : String) (h : isAbsolute path = false) :
    ∃ front, (join dir path).toList = front ++ path.toList ∧
      (front = [] ∨ front.getLast? = some '/') := by
  unfold join
  rw [h, if_neg Bool.false_ne_true]
  split
  · next hdir =>
    refine ⟨dir.toList, String.toList_append, ?_⟩
    simp only [Bool.or_eq_true, decide_eq_true_eq] at hdir
    exact hdir.imp_left fun hempty => by rw [hempty]; rfl
  · exact ⟨dir.toList ++ ['/'], by rw [String.toList_append, String.toList_append]; rfl,
      .inr List.getLast?_concat⟩

/-- What the last piece of an ordinary path says of a file, the directory does not change. -/
theorem fileName?_join (h : Ordinary path) : fileName? (join dir path) = fileName? path := by
  obtain ⟨front, last, hpath, hfront, hlast, hmem⟩ := Text.exists_last_piece '/' path.toList
  obtain ⟨start, hjoin, hstart⟩ := exists_toList_join dir (not_isAbsolute_of_ordinary h)
  have hname := h last hmem
  rw [fileName?_eq_some hpath hfront hlast hname]
  have hwhole : (join dir path).toList = (start ++ front) ++ last := by
    rw [hjoin, hpath, List.append_assoc]
  refine fileName?_eq_some hwhole ?_ hlast hname
  rcases hfront with rfl | hfront
  · rw [List.append_nil]
    exact hstart
  · exact .inr (by rw [List.getLast?_append, hfront]; rfl)

theorem extension?_join (h : Ordinary path) : extension? (join dir path) = extension? path := by
  rw [extension?, fileName?_join h, extension?]

end Path

end TypedClient
