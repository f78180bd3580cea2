import TypedClient.Host.Tree
import TypedClient.Proofs.Path.Directory

/-! The names in a path: its pieces but for those that are empty or a single dot, which say nothing.
The directory that a path stands in has the same names but for the last one, and a path that is
taken from a directory has the names of both. -/

namespace TypedClient.Path

/-- Whether a piece of a path says nothing. -/
def isIdle (piece : String) : Bool := piece = "" || piece = "."

/-- The pieces of a path that say something. -/
def names (cs : List Char) : List String :=
  ((Text.pieces (· == '/') cs).map String.ofList).filter fun piece => !isIdle piece

@[simp] theorem names_nil : names [] = [] := rfl

theorem names_append_slash (as bs : List Char) :
    names (as ++ '/' :: bs) = names as ++ names bs := by
  rw [names, Text.pieces_append_cut (by decide), List.map_append, List.filter_append]
  rfl

theorem names_cons_slash (cs : List Char) : names ('/' :: cs) = names cs := by
  rw [← List.nil_append ('/' :: cs), names_append_slash, names_nil, List.nil_append]

theorem names_concat_slash (cs : List Char) : names (cs ++ ['/']) = names cs := by
  rw [names_append_slash, names_nil, List.append_nil]

theorem length_names_of_not_mem {cs : List Char} (h : '/' ∉ cs) : (names cs).length ≤ 1 := by
  rw [names, Text.pieces_of_not_mem h]
  exact List.length_filter_le _ _

/-! ### Beginnings and ends -/

theorem names_trimEnd (cs : List Char) : names (trimEnd cs) = names cs := by
  suffices h : ∀ cs, names (trimReversed cs).reverse = names cs.reverse by
    rw [trimEnd, h, List.reverse_reverse]
  intro cs
  fun_induction trimReversed cs with
  | case1 cs ih => rw [ih, List.reverse_cons, names_concat_slash]
  | case2 cs ih =>
    rw [ih, List.reverse_cons, List.reverse_cons, names_concat_slash, List.reverse_cons,
      List.append_assoc, List.singleton_append, names_append_slash]
    exact (List.append_nil _).symm
  | case3 => rfl
  | case4 => rfl

theorem names_splitStart (cs : List Char) : names (splitStart cs).2 = names cs := by
  unfold splitStart
  split
  · exact (names_cons_slash _).symm
  · rfl
  · next rest =>
    rw [names_cons_slash, ← List.singleton_append, names_append_slash]
    rfl
  · rfl

/-- What a path begins with and a beginning of the rest have the names of the latter. -/
theorem names_start_append {cs body : List Char} (h : body <+: (splitStart cs).2) :
    names ((splitStart cs).1 ++ body) = names body := by
  revert h
  unfold splitStart
  split <;> intro h
  · exact names_cons_slash body
  · rw [List.prefix_nil.1 h]
    rfl
  · cases body with
    | nil => rfl
    | cons c body =>
      obtain ⟨rfl, -⟩ := List.cons_prefix_cons.1 h
      rw [names_append_slash, names_cons_slash]
      rfl
  · rfl

theorem names_splitLast (cs : List Char) :
    ∃ last, names cs = names (splitLast cs).1 ++ last ∧ last.length ≤ 1 := by
  obtain ⟨hslash, hcs | ⟨hnil, hcs⟩⟩ := splitLast_eq cs
  · refine ⟨names (splitLast cs).2, ?_, length_names_of_not_mem hslash⟩
    rw [← names_append_slash, ← hcs]
  · refine ⟨names cs, ?_, ?_⟩
    · rw [hnil]
      rfl
    · rw [hcs]
      exact length_names_of_not_mem hslash

theorem trimReversed_eq_nil_or (cs : List Char) : trimReversed cs = [] ∨
    (trimReversed cs).takeWhile (· != '/') ∉ [[], ['.']] := by
  fun_induction trimReversed cs with
  | case1 cs ih => exact ih
  | case2 cs ih => exact ih
  | case3 => exact .inl rfl
  | case4 cs hslash hdot hone =>
    rcases cs with _ | ⟨c, _ | ⟨c', rest⟩⟩
    · exact .inl rfl
    · right
      have hc : c ≠ '/' := fun h => hslash [] (by rw [h])
      have hc' : c ≠ '.' := fun h => hone (by rw [h])
      simp [hc, hc']
    · right
      have hc : c ≠ '/' := fun h => hslash (c' :: rest) (by rw [h])
      by_cases hc' : c' = '/'
      · have hc'' : c ≠ '.' := fun h => hdot rest (by rw [h, hc'])
        simp [hc, hc', hc'']
      · simp [hc, hc']

/-- What is left of a path ends in a piece that says something. -/
theorem last_of_trimEnd {cs : List Char} (h : trimEnd cs ≠ []) :
    (splitLast (trimEnd cs)).2 ∉ [[], ['.']] := by
  have hlast := (trimReversed_eq_nil_or cs.reverse).resolve_left fun hnil => h (by
    rw [trimEnd, hnil]
    rfl)
  simp only [List.mem_cons, List.not_mem_nil, or_false, not_or] at hlast ⊢
  rw [trimEnd, splitLast, List.reverse_reverse]
  exact ⟨mt List.reverse_eq_nil_iff.1 hlast.1,
    fun hdot => hlast.2 (by simpa using congrArg List.reverse hdot)⟩

/-! ### The directory of a path -/

variable {path parent : String}

/-- The directory of a path, as what the path begins with and a part of the rest. -/
theorem parent?_eq_some (h : parent? path = some parent) :
    (names path.toList = [] ∧ parent = "" ∧ isAbsolute path = false) ∨
      ∃ body front, body <+: (splitStart path.toList).2 ∧ body ≠ [] ∧
        names body = names path.toList ∧ front = trimEnd (splitLast body).1 ∧
        parent.toList = (splitStart path.toList).1 ++ front := by
  unfold parent? at h
  have hnames := names_trimEnd (splitStart path.toList).2
  rw [names_splitStart] at hnames
  have hprefix := isPrefix_trimEnd (splitStart path.toList).2
  dsimp only at h
  generalize hbody : trimEnd (splitStart path.toList).2 = body at h hnames hprefix
  cases body with
  | nil =>
    left
    dsimp only at h
    split at h
    · next hstart =>
      cases h
      refine ⟨hnames.symm, rfl, ?_⟩
      unfold isAbsolute
      refine decide_eq_false fun hhead => ?_
      obtain ⟨rest, hrest⟩ := List.head?_eq_some_iff.1 hhead
      rw [hrest] at hstart
      cases hstart
    · cases h
  | cons c cs =>
    right
    cases h
    exact ⟨c :: cs, _, hprefix, List.cons_ne_nil c cs, hnames, rfl, String.toList_ofList⟩

/-- A path that has no directory has no names. -/
theorem names_of_parent?_eq_none (h : parent? path = none) : names path.toList = [] := by
  rw [← names_splitStart, ← names_trimEnd]
  unfold parent? at h
  dsimp only at h
  cases hbody : trimEnd (splitStart path.toList).2 with
  | nil => rfl
  | cons c cs =>
    rw [hbody] at h
    cases h

/-- A path has the names of its directory, and at most one more. -/
theorem names_of_parent? (h : parent? path = some parent) :
    ∃ last, names path.toList = names parent.toList ++ last ∧ last.length ≤ 1 := by
  rcases parent?_eq_some h with ⟨hnames, rfl, -⟩ | ⟨body, front, hprefix, -, hnames, rfl, hparent⟩
  · exact ⟨[], hnames, Nat.zero_le _⟩
  · obtain ⟨last, hlast, hlength⟩ := names_splitLast body
    refine ⟨last, ?_, hlength⟩
    have hfront : trimEnd (splitLast body).1 <+: (splitStart path.toList).2 :=
      (isPrefix_trimEnd _).trans ((isPrefix_splitLast _).trans hprefix)
    rw [hparent, names_start_append hfront, names_trimEnd, ← hnames, hlast]

theorem length_of_parent? (h : parent? path = some parent) (hne : parent ≠ "") :
    parent.length < path.length := by
  rcases parent?_eq_some h with ⟨-, hempty, -⟩ | ⟨body, front, hprefix, hbody, -, rfl, hparent⟩
  · exact absurd hempty hne
  · have hshorter : (splitLast body).1.length < body.length := by
      have hpositive := List.length_pos_iff.2 hbody
      obtain ⟨-, hcs | ⟨hnil, -⟩⟩ := splitLast_eq body
      · have hlength := congrArg List.length hcs
        rw [List.length_append, List.length_cons] at hlength
        omega
      · rwa [hnil]
    have htrim := (isPrefix_trimEnd (splitLast body).1).length_le
    have hrest := hprefix.length_le
    have hpath := congrArg List.length (splitStart_eq path.toList)
    have hlength := congrArg List.length hparent
    rw [List.length_append] at hpath hlength
    rw [← String.length_toList, ← String.length_toList]
    omega

/-- What a path begins with and a beginning of the rest are absolute if the path is. -/
theorem head?_start_append {cs front : List Char} (h : front <+: (splitStart cs).2)
    (hne : (splitStart cs).1 ++ front ≠ []) :
    ((splitStart cs).1 ++ front).head? = some '/' ↔ cs.head? = some '/' := by
  have hwhole := splitStart_eq cs
  generalize (splitStart cs).1 = start, (splitStart cs).2 = rest at *
  obtain ⟨more, rfl⟩ := h
  rw [hwhole, ← List.append_assoc, List.head?_append_of_ne_nil _ hne]

/-- The directory of a path is absolute if the path is, unless nothing is said of it. -/
theorem isAbsolute_parent? (h : parent? path = some parent) :
    (parent = "" → isAbsolute path = false) ∧
      (parent ≠ "" → isAbsolute parent = isAbsolute path) := by
  rcases parent?_eq_some h with ⟨-, rfl, hrelative⟩ | ⟨body, front, hprefix, -, -, rfl, hparent⟩
  · exact ⟨fun _ => hrelative, fun hne => absurd rfl hne⟩
  · have hfront : trimEnd (splitLast body).1 <+: (splitStart path.toList).2 :=
      (isPrefix_trimEnd _).trans ((isPrefix_splitLast _).trans hprefix)
    constructor
    · rintro rfl
      have hstart : (splitStart path.toList).1 = [] := (List.append_eq_nil_iff.1 hparent.symm).1
      refine decide_eq_false fun hhead => ?_
      obtain ⟨rest, hrest⟩ := List.head?_eq_some_iff.1 hhead
      rw [hrest] at hstart
      cases hstart
    · intro hne
      rw [isAbsolute, isAbsolute, decide_eq_decide, hparent]
      exact head?_start_append hfront (hparent ▸ mt String.toList_eq_nil_iff.1 hne)

/-- A path begins with nothing, or with a slash at its end, or a slash follows if anything does. -/
theorem splitStart_cases (cs : List Char) : (splitStart cs).1 = [] ∨
    (splitStart cs).1.getLast? = some '/' ∨ ∀ c ∈ (splitStart cs).2.head?, c = '/' := by
  unfold splitStart
  split
  · exact .inr (.inl rfl)
  · exact .inr (.inr (by simp))
  · exact .inr (.inr (by simp))
  · exact .inl rfl

/-- The directory of a path has no names, or ends in a piece that says something. -/
theorem last_of_parent? (h : parent? path = some parent) : names parent.toList = [] ∨
    ∃ front last, parent.toList = front ++ last ∧ (front = [] ∨ front.getLast? = some '/') ∧
      '/' ∉ last ∧ last ∉ [[], ['.']] := by
  rcases parent?_eq_some h with ⟨-, rfl, -⟩ | ⟨body, front, hprefix, -, -, hfront, hparent⟩
  · exact .inl rfl
  have hbegins : front <+: (splitStart path.toList).2 := by
    rw [hfront]
    exact (isPrefix_trimEnd _).trans ((isPrefix_splitLast _).trans hprefix)
  by_cases hnil : front = []
  · left
    rw [hparent, names_start_append hbegins, hnil]
    rfl
  · right
    have hlast : (splitLast front).2 ∉ [[], ['.']] := by
      rw [hfront] at hnil ⊢
      exact last_of_trimEnd hnil
    obtain ⟨hslash, hcut⟩ := splitLast_eq front
    rcases hcut with hcut | ⟨hnone, hcut⟩
    · refine ⟨(splitStart path.toList).1 ++ (splitLast front).1 ++ ['/'], _, ?_, .inr ?_, hslash,
        hlast⟩
      · rw [hparent]
        conv_lhs => rw [hcut]
        simp
      · exact List.getLast?_concat
    · refine ⟨(splitStart path.toList).1, _, by rw [hparent, ← hcut], ?_, hslash, hlast⟩
      rcases splitStart_cases path.toList with hstart | hstart | hslashed
      · exact .inl hstart
      · exact .inr hstart
      · obtain ⟨c, rest, hrest⟩ := List.exists_cons_of_ne_nil hnil
        obtain ⟨more, hmore⟩ := hbegins
        rw [← hmore, hrest] at hslashed
        rw [← hcut, hrest, hslashed c rfl] at hslash
        exact absurd List.mem_cons_self hslash

/-! ### Paths taken from a directory -/

theorem names_join (base path : String) : names (join base path).toList =
    if isAbsolute path then names path.toList else names base.toList ++ names path.toList := by
  unfold join
  split
  · rfl
  · split
    · next hbase =>
      simp only [Bool.or_eq_true, decide_eq_true_eq] at hbase
      rcases hbase with rfl | hbase
      · rw [String.empty_append]
        rfl
      · obtain ⟨front, hfront⟩ := List.getLast?_eq_some_iff.1 hbase
        rw [String.toList_append, hfront, List.append_assoc, List.singleton_append,
          names_append_slash, names_concat_slash]
    · rw [String.toList_append, String.toList_append, List.append_assoc]
      exact names_append_slash _ _

end TypedClient.Path
