import TypedClient.Proofs.Path.FileName

/-! The directory that a path stands in, and the name at its end. Main statement: from where the
directory leads, the name leads to where the path does. -/

namespace TypedClient.Path

open Place

/-- The directory that a path stands in; the empty path where it has none. -/
def directoryOf (path : String) : String := (parent? path).getD ""

theorem Place.enter_inj {p q : Place} {a b : List Char} (ha : IsName a) (hb : IsName b) :
    p.enter a = q.enter b ↔ p = q ∧ a = b := by
  rw [enter_name p ha, enter_name q hb, Place.mk.injEq, List.append_singleton_inj, ← and_assoc,
    ← Place.mk.injEq]

theorem Place.leave_enter (p : Place) {a : List Char} (h : IsName a) : (p.enter a).leave = p := by
  rw [enter_name p h, leave_of_names_ne_nil (by simp), List.dropLast_concat]

/-- A text without slashes is one piece. -/
theorem Place.follow_of_not_mem (p : Place) {cs : List Char} (h : '/' ∉ cs) :
    p.follow cs = p.enter cs := by
  have hpieces : Text.pieces (· = '/') cs = [cs] := Text.pieces_of_not_mem h
  rw [follow, hpieces]
  rfl

/-! ### Ends of paths -/

/-- Slashes and single dots at the end of a path say nothing. -/
theorem follow_trimReversed (p : Place) (cs : List Char) :
    p.follow (trimReversed cs).reverse = p.follow cs.reverse := by
  fun_induction trimReversed cs with
  | case1 cs ih => rw [ih, List.reverse_cons, follow_append_slash, follow_nil]
  | case2 cs ih =>
    rw [ih, List.reverse_cons, List.reverse_cons, List.reverse_cons, List.append_assoc,
      List.singleton_append, follow_append_slash, follow_append_slash]
    rfl
  | case3 => rfl
  | case4 => rfl

theorem follow_trimEnd (p : Place) (cs : List Char) : p.follow (trimEnd cs) = p.follow cs := by
  rw [trimEnd, follow_trimReversed, List.reverse_reverse]

theorem isSuffix_trimReversed (cs : List Char) : trimReversed cs <:+ cs := by
  fun_induction trimReversed cs with
  | case1 cs ih => exact ih.trans (List.suffix_cons _ _)
  | case2 cs ih => exact ih.trans (List.suffix_cons _ _)
  | case3 => exact List.nil_suffix
  | case4 => exact List.suffix_rfl

theorem isPrefix_trimEnd (cs : List Char) : trimEnd cs <+: cs := by
  rw [← List.reverse_suffix, trimEnd, List.reverse_reverse]
  exact isSuffix_trimReversed _

/-- What stands before the last slash of a path, and what stands after it. -/
theorem splitLast_eq (cs : List Char) :
    '/' ∉ (splitLast cs).2 ∧
      (cs = (splitLast cs).1 ++ '/' :: (splitLast cs).2 ∨
        (splitLast cs).1 = [] ∧ cs = (splitLast cs).2) := by
  have hwhole := List.takeWhile_append_dropWhile (p := (· != '/')) (l := cs.reverse)
  have hhead := List.head?_dropWhile_not (· != '/') cs.reverse
  have hname : ∀ c ∈ cs.reverse.takeWhile (· != '/'), (c != '/') = true :=
    List.all_eq_true.1 List.all_takeWhile
  simp only [splitLast]
  generalize cs.reverse.takeWhile (· != '/') = name at hwhole hname
  generalize cs.reverse.dropWhile (· != '/') = rest at hwhole hhead
  refine ⟨fun h => by simpa using hname '/' (List.mem_reverse.1 h), ?_⟩
  cases rest with
  | nil =>
    rw [List.append_nil] at hwhole
    exact .inr ⟨rfl, by rw [hwhole, List.reverse_reverse]⟩
  | cons c rest =>
    obtain rfl : c = '/' := by simpa using hhead
    left
    rw [← List.reverse_inj, ← hwhole]
    simp

theorem isPrefix_splitLast (cs : List Char) : (splitLast cs).1 <+: cs := by
  rcases (splitLast_eq cs).2 with h | ⟨h, -⟩
  · exact ⟨_, h.symm⟩
  · rw [h]
    exact List.nil_prefix

/-- A path leads along what stands before its last slash, and then to what follows. -/
theorem follow_splitLast (p : Place) (cs : List Char) :
    p.follow cs = (p.follow (splitLast cs).1).enter (splitLast cs).2 := by
  obtain ⟨hslash, hcs⟩ := splitLast_eq cs
  rcases hcs with hcs | ⟨hnil, hcs⟩
  · conv_lhs => rw [hcs, follow_append_slash, follow_of_not_mem _ hslash]
  · rw [hnil, follow_nil, ← follow_of_not_mem _ hslash, ← hcs]

/-! ### Beginnings of paths -/

/-- A path is what it begins with and what follows. -/
theorem splitStart_eq (cs : List Char) : cs = (splitStart cs).1 ++ (splitStart cs).2 := by
  unfold splitStart
  split <;> rfl

/-- What a path begins with and a beginning of the rest lead along the rest, from the root or from
here as the path does. -/
theorem place_of_start {path front : String} {body : List Char}
    (hbody : body <+: (splitStart path.toList).2)
    (hfront : front.toList = (splitStart path.toList).1 ++ body) :
    place front = (if isAbsolute path then root else here).follow body := by
  unfold place isAbsolute
  rw [hfront]
  generalize path.toList = cs at hbody ⊢
  revert hbody
  unfold splitStart
  split <;> intro hbody
  · rfl
  · obtain rfl : body = [] := List.prefix_nil.1 hbody
    rfl
  · cases body with
    | nil => rfl
    | cons c body =>
      obtain ⟨rfl, -⟩ := List.cons_prefix_cons.1 hbody
      rfl
  · next hroot _ _ =>
    cases body with
    | nil =>
      have hcs : cs.head? ≠ some '/' := fun h => by
        obtain ⟨rest, hrest⟩ := List.head?_eq_some_iff.1 h
        exact hroot rest hrest
      simp [hcs, follow_nil]
    | cons c body =>
      obtain ⟨rest, rfl⟩ := hbody
      rfl

/-- From where the directory of a path leads, the name at its end leads to where the path does. -/
theorem place_of_fileName? {path : String} {name : List Char} (h : fileName? path = some name) :
    place path = (place (directoryOf path)).enter name := by
  have hpath : place path =
      (if isAbsolute path then root else here).follow (trimEnd (splitStart path.toList).2) := by
    rw [follow_trimEnd]
    exact place_of_start List.prefix_rfl (splitStart_eq _)
  unfold fileName? at h
  unfold directoryOf parent?
  cases hbody : trimEnd (splitStart path.toList).2 with
  | nil => simp [hbody] at h
  | cons c cs =>
    simp only [hbody] at h
    split at h
    · cases h
    · cases h
      have hfront : trimEnd (splitLast (c :: cs)).1 <+: (splitStart path.toList).2 :=
        (isPrefix_trimEnd _).trans ((isPrefix_splitLast _).trans (hbody ▸ isPrefix_trimEnd _))
      rw [hpath, hbody, follow_splitLast]
      simp only [hbody, Option.getD_some]
      rw [place_of_start hfront String.toList_ofList, follow_trimEnd]

/-! ### Names in a directory -/

section

variable {dir name : String}

theorem place_join_name (hslash : '/' ∉ name.toList) (h : IsName name.toList) :
    place (join dir name) = (place dir).enter name.toList := by
  rw [place_join (not_isAbsolute_of_ordinary (ordinary_of_name hslash h)),
    follow_of_not_mem _ hslash]

/-- A file stands in the directory that its path is taken from. -/
theorem place_directoryOf_join (hslash : '/' ∉ name.toList) (h : IsName name.toList) :
    place (directoryOf (join dir name)) = place dir := by
  have hname : fileName? (join dir name) = some name.toList := by
    rw [fileName?_join (ordinary_of_name hslash h)]
    exact fileName?_eq_some (List.nil_append _).symm (.inl rfl) hslash h
  have hplace := place_of_fileName? hname
  rw [place_join_name hslash h] at hplace
  exact ((enter_inj h h).1 hplace).1.symm

/-- The last piece of an ordinary path is a name, and the name at its end. -/
theorem exists_fileName? {path : String} (h : Ordinary path) :
    ∃ name, fileName? path = some name ∧ IsName name := by
  obtain ⟨front, last, hpath, hfront, hlast, hmem⟩ := Text.exists_last_piece '/' path.toList
  exact ⟨last, fileName?_eq_some hpath hfront hlast (h last hmem), h last hmem⟩

end

end TypedClient.Path
