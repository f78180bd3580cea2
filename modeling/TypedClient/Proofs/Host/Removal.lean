import Mathlib.Data.List.TakeWhile
import TypedClient.Proofs.Host.Directories

/-! Removing a directory and making it again. Removing takes what is inside of the directory and,
unless its path led through that or ends in no name, the directory itself. It is made again with
all ways of its path where the place is left that the path is taken from; otherwise nothing is. -/

namespace TypedClient

namespace FileTree

open TypedClient.Path

variable {t t' : FileTree} {v way : Way} {path text : String}

/-! ### What is removed -/

/-- The ways that a path passes before its last piece. -/
def beforeLast (path : String) : List Way :=
  trail [] (piecesOf (dropSlashes path)).dropLast

/-- Whether the directory that a path leads to can be removed once what is inside of it is gone. -/
def Removable (path : String) : Prop :=
  lastPiece path ∉ ["", ".", ".."] ∧ ∀ v ∈ beforeLast path, ¬ Inside v (target path)

/-- Whether removing the directory that a path leads to takes what stands at a way. -/
def Takes (path : String) (v : Way) : Prop :=
  Inside v (target path) ∨ (v = target path ∧ Removable path)

instance (path : String) : Decidable (Removable path) := inferInstanceAs (Decidable (_ ∧ _))

instance (path : String) (v : Way) : Decidable (Takes path v) := inferInstanceAs (Decidable (_ ∨ _))

theorem passed_dropSlashes (path : String) :
    passed [] (piecesOf (dropSlashes path)) = beforeLast path := by
  rw [piecesOf_dropSlashes, passed_concat]
  rfl

/-- The ways of a path are those before its last piece and where it leads. -/
theorem mem_visits_iff_beforeLast : v ∈ visits path ↔ v ∈ beforeLast path ∨ v = target path := by
  obtain ⟨htarget, hvisits⟩ := visits_dropSlashes path
  rw [← hvisits, visits, mem_trail, passed_dropSlashes, ← htarget]
  rfl

theorem step_lastPiece (path : String) :
    step (reached [] (piecesOf (dropSlashes path)).dropLast) (lastPiece path) = target path := by
  rw [← (visits_dropSlashes path).1, target]
  conv_rhs => rw [piecesOf_dropSlashes, reached_append, reached_cons, reached_nil]

/-- A directory whose inside has been cleared is not found where its path led through that. -/
theorem locateEnd_of_missing (h : ∀ v ∈ beforeLast path, t.entry? v = some .directory)
    (hmissing : ∃ v ∈ beforeLast path, Inside v (target path)) :
    (t.clear (target path)).locateEnd path = .error .missing := by
  have hfollow : (t.clear (target path)).follow []
      ((piecesOf (dropSlashes path)).dropLast ++ ["."]) = .error .missing := by
    refine follow_of_missing (fun v hv => ?_) ?_
    · rw [passed_concat] at hv
      rw [entry?_clear]
      split
      · exact .inr rfl
      · exact .inl (h v hv)
    · obtain ⟨v, hv, hinside⟩ := hmissing
      refine ⟨v, by rwa [passed_concat], ?_⟩
      rw [entry?_clear, if_pos hinside]
  unfold locateEnd
  dsimp only
  rw [hfollow]
  rfl

theorem locateEnd_of_directories (h : ∀ v ∈ beforeLast path, t.entry? v = some .directory) :
    t.locateEnd path =
      .ok (reached [] (piecesOf (dropSlashes path)).dropLast, lastPiece path) := by
  have hfollow : t.follow [] ((piecesOf (dropSlashes path)).dropLast ++ ["."]) =
      .ok (reached [] (piecesOf (dropSlashes path)).dropLast) := by
    rw [follow_eq_ok, passed_concat]
    refine ⟨h, ?_⟩
    rw [reached_append, reached_cons, reached_nil, step_dot]
  unfold locateEnd
  dsimp only
  rw [hfollow]
  rfl

theorem entry?_without (t : FileTree) (way v : Way) (hway : way ≠ []) :
    entry? { entries := t.entries.filter fun p => p.1 != way } v =
      if v = way then none else t.entry? v := by
  unfold entry?
  by_cases hv : v = []
  · rw [if_pos hv, if_neg (by rintro rfl; exact hway hv), if_pos hv]
  · rw [if_neg hv, if_neg hv, Assoc.get?_filter t.entries (· != way) v]
    by_cases heq : v = way
    · rw [if_pos heq, if_neg (by simp [heq])]
    · rw [if_neg heq, if_pos (by simpa using heq)]

/-- Nothing is inside of a way that has been cleared. -/
theorem any_clear (t : FileTree) (way : Way) :
    ((t.clear way).entries.any fun p => way.isPrefixOf p.1 && p.1 != way) = false := by
  rw [List.any_eq_false]
  intro p hp hinside
  have hkept := (List.mem_filter.1 hp).2
  simp only [Bool.and_eq_true, bne_iff_ne, ne_eq] at hinside
  simp [hinside.1, hinside.2] at hkept

/-- Where the directory can be removed, clearing it and removing it leaves neither. -/
theorem removeDirectory_of_removable (h : ∀ v ∈ visits path, t.entry? v = some .directory)
    (hremovable : Removable path) : ∃ left,
      (t.clear (target path)).removeDirectory path = .ok left ∧
        ∀ v, left.entry? v =
          if v = target path then none else entry? (t.clear (target path)) v := by
  obtain ⟨hlast, houtside⟩ := hremovable
  simp only [List.mem_cons, List.not_mem_nil, or_false, not_or] at hlast
  obtain ⟨hempty, hdot, hdots⟩ := hlast
  have hend : (t.clear (target path)).locateEnd path =
      .ok (reached [] (piecesOf (dropSlashes path)).dropLast, lastPiece path) := by
    refine locateEnd_of_directories fun v hv => ?_
    rw [entry?_clear, if_neg (houtside v hv)]
    exact h v (mem_visits_iff_beforeLast.2 (.inl hv))
  have hway := step_lastPiece path
  rw [step, isIdle, if_neg (by simp [hempty, hdot]), if_neg hdots] at hway
  have hentry : entry? (t.clear (target path)) (target path) = some .directory := by
    rw [entry?_clear, if_neg fun hinside => hinside.2 rfl]
    exact h _ (target_mem_visits path)
  refine ⟨{ entries := (t.clear (target path)).entries.filter fun p => p.1 != target path }, ?_,
    fun v => entry?_without _ _ v ?_⟩
  · unfold removeDirectory
    rw [hend]
    dsimp only [bind, Except.bind]
    rw [if_neg hempty, if_neg hdot, if_neg hdots, hway, hentry]
    dsimp only
    rw [any_clear]
    rfl
  · rw [← hway]
    simp

/-- Where it cannot, clearing it is all that happens; that is a failure only if the path led through
nothing that is gone. -/
theorem removeDirectory_of_not_removable (h : ∀ v ∈ visits path, t.entry? v = some .directory)
    (hnot : ¬ Removable path) : ∃ e, (t.clear (target path)).removeDirectory path = .error e ∧
      (e = .missing ∨ ∀ v ∈ visits path, ¬ Inside v (target path)) := by
  have hbefore : ∀ v ∈ beforeLast path, t.entry? v = some .directory := fun v hv =>
    h v (mem_visits_iff_beforeLast.2 (.inl hv))
  by_cases hmissing : ∃ v ∈ beforeLast path, Inside v (target path)
  · refine ⟨.missing, ?_, .inl rfl⟩
    unfold removeDirectory
    rw [locateEnd_of_missing hbefore hmissing]
    rfl
  · have houtside : ∀ v ∈ beforeLast path, ¬ Inside v (target path) := fun v hv hinside =>
      hmissing ⟨v, hv, hinside⟩
    have hend : (t.clear (target path)).locateEnd path =
        .ok (reached [] (piecesOf (dropSlashes path)).dropLast, lastPiece path) := by
      refine locateEnd_of_directories fun v hv => ?_
      rw [entry?_clear, if_neg (houtside v hv)]
      exact hbefore v hv
    have hkept : ∀ v ∈ visits path, ¬ Inside v (target path) := by
      intro v hv
      rcases mem_visits_iff_beforeLast.1 hv with hv | rfl
      · exact houtside v hv
      · exact fun hinside => hinside.2 rfl
    have hlast : lastPiece path ∈ ["", ".", ".."] := by
      by_contra hlast
      exact hnot ⟨hlast, houtside⟩
    unfold removeDirectory
    rw [hend]
    simp only [List.mem_cons, List.not_mem_nil, or_false] at hlast
    rcases hlast with hlast | hlast | hlast <;> rw [hlast]
    · exact ⟨.busy, rfl, .inr hkept⟩
    · exact ⟨.invalidArgument, rfl, .inr hkept⟩
    · exact ⟨.notEmpty, rfl, .inr hkept⟩

/-- What is left of a tree when a directory has been removed. A failure is one that leaves all ways
of the path. -/
theorem entry?_removeTree (h : t.isDirectory path = true) :
    (∀ v, entry? (t.removeTree path).2 v = if Takes path v then none else t.entry? v) ∧
      ((t.removeTree path).1 = .ok () ∨ ∀ v ∈ visits path, ¬ Takes path v) := by
  obtain ⟨hne, hall⟩ := isDirectory_iff.1 h
  have hlocate : t.locate path = .ok (target path) := by
    rw [locate, if_neg hne, follow_eq_ok]
    exact ⟨fun v hv => hall v (mem_trail.2 (.inl hv)), rfl⟩
  unfold removeTree
  rw [hlocate]
  dsimp only
  rw [hall _ (target_mem_visits path)]
  dsimp only
  by_cases hremovable : Removable path
  · obtain ⟨left, hleft, hentry⟩ := removeDirectory_of_removable hall hremovable
    rw [hleft]
    refine ⟨fun v => ?_, .inl rfl⟩
    rw [hentry, entry?_clear]
    by_cases hv : v = target path
    · rw [if_pos hv, if_pos (.inr ⟨hv, hremovable⟩)]
    · rw [if_neg hv]
      exact if_congr (by simp [Takes, hv]) rfl rfl
  · have htakes : ∀ v, Takes path v ↔ Inside v (target path) := fun v => by simp [Takes, hremovable]
    have hentry : ∀ v, entry? (t.clear (target path)) v =
        if Takes path v then none else t.entry? v := fun v => by
      rw [entry?_clear]
      exact if_congr (htakes v).symm rfl rfl
    obtain ⟨e, hfailed, hcause⟩ := removeDirectory_of_not_removable hall hremovable
    rw [hfailed]
    refine ⟨by cases e <;> exact hentry, ?_⟩
    rcases hcause with rfl | hkept
    · exact .inl rfl
    · exact .inr fun v hv => (htakes v).not.2 (hkept v hv)

/-! ### Reading what is left -/

/-- What is read is read again where the same stands at all ways of the path. -/
theorem read_of_kept (hread : t.read path = .ok text)
    (h : ∀ v ∈ visits path, t'.entry? v = t.entry? v) : t'.read path = .ok text := by
  rw [read_eq_ok] at hread ⊢
  obtain ⟨hne, hpassed, htarget⟩ := hread
  refine ⟨hne, fun v hv => ?_, ?_⟩
  · rw [h v (mem_trail.2 (.inl hv))]
    exact hpassed v hv
  · rw [h _ (target_mem_visits path)]
    exact htarget

/-- It is missing where something is gone. -/
theorem read_of_gone (hread : t.read path = .ok text)
    (h : ∀ v ∈ visits path, t'.entry? v = t.entry? v ∨ t'.entry? v = none)
    (hgone : ∃ v ∈ visits path, t'.entry? v = none) : t'.read path = .error .missing := by
  obtain ⟨hne, hpassed, -⟩ := read_eq_ok.1 hread
  have hleft : ∀ v ∈ passed [] (piecesOf path),
      t'.entry? v = some .directory ∨ t'.entry? v = none := fun v hv => by
    rw [← hpassed v hv]
    exact h v (mem_trail.2 (.inl hv))
  unfold read locate
  rw [if_neg hne]
  by_cases hmissing : ∃ v ∈ passed [] (piecesOf path), t'.entry? v = none
  · rw [follow_of_missing hleft hmissing]
    rfl
  · have hall : ∀ v ∈ passed [] (piecesOf path), t'.entry? v = some .directory := fun v hv =>
      (hleft v hv).resolve_right fun hnone => hmissing ⟨v, hv, hnone⟩
    rw [follow_eq_ok.2 ⟨hall, rfl⟩]
    obtain ⟨v, hv, hnone⟩ := hgone
    rcases mem_trail.1 hv with hv | rfl
    · exact absurd ⟨v, hv, hnone⟩ hmissing
    · dsimp only [bind, Except.bind]
      rw [show t'.entry? (reached [] (piecesOf path)) = none from hnone]
      rfl

/-! ### Relative paths -/

/-- A path that is taken from a directory passes the ways of the latter before its last piece. -/
theorem visits_subset_beforeLast {base : String} (hrelative : isAbsolute path = false)
    (hne : path ≠ "") (h : v ∈ visits base) : v ∈ beforeLast (join base path) := by
  obtain ⟨front, hjoin, hfront⟩ := exists_toList_join base hrelative
  -- slashes are dropped from the path alone, since it does not begin with one
  obtain ⟨rest, hdrop⟩ : ∃ rest, (dropSlashes (join base path)).toList = front ++ rest := by
    have hkept : path.toList.reverse.dropWhile (· == '/') ≠ [] := by
      obtain ⟨c, cs, hcs⟩ := List.exists_cons_of_ne_nil (mt String.toList_eq_nil_iff.1 hne)
      have hc : c ≠ '/' := by
        rintro rfl
        simp [isAbsolute, hcs] at hrelative
      rw [Ne, List.dropWhile_eq_nil_iff, hcs]
      exact fun hall => hc (beq_iff_eq.1 (hall c (by simp)))
    refine ⟨(path.toList.reverse.dropWhile (· == '/')).reverse, ?_⟩
    unfold dropSlashes
    rw [hjoin, List.reverse_append, List.dropWhile_append, if_neg (by simpa using hkept),
      List.reverse_append, List.reverse_reverse]
    split
    · next hnil => simp [hkept] at hnil
    · exact String.toList_ofList
  have hpieces : (Text.pieces (· == '/') rest).map String.ofList ≠ [] :=
    mt List.map_eq_nil_iff.1 (Text.pieces_ne_nil _ _)
  rw [← passed_dropSlashes, piecesOf, hdrop]
  rw [mem_visits] at h
  have hnames := names_join base path
  rw [hrelative, if_neg Bool.false_ne_true, hjoin] at hnames
  rcases hfront with rfl | hfront
  · have hbase : names base.toList = [] := by
      simpa using hnames
    rw [hbase] at h
    rw [List.mem_singleton.1 h, List.nil_append]
    exact start_mem_passed _ hpieces
  · obtain ⟨init, rfl⟩ := List.getLast?_eq_some_iff.1 hfront
    rw [List.append_assoc, List.singleton_append, names_append_slash,
      List.append_left_inj] at hnames
    rw [List.append_assoc, List.singleton_append, Text.pieces_append_cut (by decide),
      List.map_append, passed_append]
    rw [← hnames, names, mem_trail_filter] at h
    rcases mem_trail.1 h with h | rfl
    · exact List.mem_append_left _ h
    · exact List.mem_append_right _ (start_mem_passed _ hpieces)

end FileTree

namespace Machine

open FileTree

variable {w w₁ : Machine} {base : String} {v : Way}

/-! ### Making it again -/

theorem run_removeTree (w : Machine) (path : String) :
    (Host.removeTree path : StateM Machine _).run w =
      ((w.tree.removeTree (w.absolute path)).1,
        { w with tree := (w.tree.removeTree (w.absolute path)).2 }) := rfl

/-- Nothing can be made where the place is gone that a path is taken from. -/
theorem makeWithin_of_uprooted {fuel : Nat} {path : String} (hne : path ≠ "")
    (hfree : Free w.tree (w.absolute path)) (h : ¬ Rooted w path) :
    ((Host.makeWithin fuel path : StateM Machine _).run w).2 = w := by
  induction fuel generalizing path with
  | zero =>
    show ((Host.unlessThere path .missing : StateM Machine _).run w).2 = w
    rw [run_unlessThere]
  | succ fuel ih =>
    obtain ⟨hrelative, u, hu, hgone⟩ : Path.isAbsolute path = false ∧
        ∃ u ∈ visits w.directory, w.tree.entry? u ≠ some .directory := by
      simpa [Rooted] using h
    have hpassed : u ∈ passed [] (piecesOf (dropSlashes (w.absolute path))) := by
      rw [passed_dropSlashes, absolute, if_neg hne]
      exact visits_subset_beforeLast hrelative hne hu
    have hfree' : ∀ v ∈ passed [] (piecesOf (dropSlashes (w.absolute path))),
        w.tree.entry? v = some .directory ∨ w.tree.entry? v = none := fun v hv =>
      hfree v ((visits_dropSlashes _).2 v |>.1 (mem_trail.2 (.inl hv)))
    have hmissing : (Host.makeDirectory path : StateM Machine _).run w = (.error .missing, w) := by
      rw [run_makeDirectory, makeDirectory_of_missing (absolute_ne_empty hne) hfree'
        ⟨u, hpassed, (hfree' u hpassed).resolve_left hgone⟩]
    have hretry : ((retry path).run w).2 = w := by
      rw [run_retry, hmissing]
      show ((Host.unlessThere path .missing : StateM Machine _).run w).2 = w
      rw [run_unlessThere]
    rw [run_makeWithin, hmissing]
    cases hparent : Path.parent? path with
    | none => rfl
    | some parent =>
      dsimp only
      by_cases hempty : parent = ""
      · rw [if_pos hempty]
        exact hretry
      · rw [if_neg hempty]
        have hsame := ih hempty
          (fun v hv => hfree v (visits_absolute_parent hparent hempty v hv))
          (by rwa [Rooted, (Path.isAbsolute_parent? hparent).2 hempty])
        generalize (Host.makeWithin fuel parent : StateM Machine _).run w = result at hsame
        obtain ⟨r, w₂⟩ := result
        obtain rfl : w₂ = w := hsame
        cases r with
        | ok => exact hretry
        | error e => rfl

/-- Whether a way is made again after the directory that a path leads to has been removed. -/
def Remade (w : Machine) (base : String) (v : Way) : Prop :=
  v ∈ visits (w.absolute base) ∧
    (Path.isAbsolute base = true ∨ ∀ u ∈ visits w.directory, ¬ Takes (w.absolute base) u)

instance (w : Machine) (base : String) (v : Way) : Decidable (Remade w base v) :=
  inferInstanceAs (Decidable (_ ∧ _))

/-- What stands where after the directory that a path leads to has been removed. -/
def removed (w : Machine) (base : String) : Machine :=
  { w with tree := (w.tree.removeTree (w.absolute base)).2 }

/-- What is taken and not made again is gone; everything else is as it was. -/
def Left (w : Machine) (base : String) (tree : FileTree) : Prop :=
  ∀ v, tree.entry? v =
    if Takes (w.absolute base) v ∧ ¬ Remade w base v then none else w.tree.entry? v

theorem entry?_removed (h : w.tree.isDirectory (w.absolute base) = true) (v : Way) :
    entry? (w.removed base).tree v =
      if Takes (w.absolute base) v then none else w.tree.entry? v :=
  (entry?_removeTree h).1 v

theorem free_removed (h : w.tree.isDirectory (w.absolute base) = true) :
    Free (w.removed base).tree ((w.removed base).absolute base) := by
  intro v hv
  rw [entry?_removed h]
  split
  · exact .inr rfl
  · exact .inl ((isDirectory_iff.1 h).2 v hv)

/-- The place that a path is taken from is there still where it has not been taken. -/
theorem rooted_removed_iff (h : w.tree.isDirectory (w.absolute base) = true) (hne : base ≠ "") :
    Rooted (w.removed base) base ↔
      Path.isAbsolute base = true ∨ ∀ u ∈ visits w.directory, ¬ Takes (w.absolute base) u := by
  by_cases habsolute : Path.isAbsolute base = true
  · simp [Rooted, habsolute]
  · rw [Rooted, or_iff_right habsolute, or_iff_right habsolute]
    refine forall₂_congr fun u hu => ?_
    have hthere : w.tree.entry? u = some .directory := by
      refine (isDirectory_iff.1 h).2 u (mem_visits_iff_beforeLast.2 (.inl ?_))
      rw [absolute, if_neg hne]
      exact visits_subset_beforeLast (Bool.eq_false_iff.2 habsolute) hne hu
    rw [entry?_removed h, hthere]
    split <;> simp [*]

/-- A directory that has been removed is made again, or the place that its path is taken from has
been removed with it. -/
theorem left_of_makeDirectories (h : w.tree.isDirectory (w.absolute base) = true) :
    ∃ tree, ((Host.makeDirectories base : StateM Machine _).run (w.removed base)).2 =
      { w with tree } ∧ Left w base tree := by
  have hne : base ≠ "" := by
    rintro rfl
    exact (isDirectory_iff.1 h).1 rfl
  unfold Host.makeDirectories
  rw [if_neg hne]
  by_cases hroot : Rooted (w.removed base) base
  · have hok : ((Host.makeWithin (base.length + 1) base : StateM Machine _).run
        (w.removed base)).1 = .ok () := by
      refine makeWithin_ok (Nat.lt_succ_self _) hne (free_removed h) hroot fun hidle => ?_
      show entry? (w.removed base).tree (target (w.absolute base)) = _
      rw [entry?_removed h, if_neg, (isDirectory_iff.1 h).2 _ (target_mem_visits _)]
      rintro (hinside | ⟨-, hlast, -⟩)
      · exact hinside.2 rfl
      · have hidle : lastPiece (w.absolute base) = "" ∨ lastPiece (w.absolute base) = "." := by
          rwa [Path.isIdle, Bool.or_eq_true, decide_eq_true_eq, decide_eq_true_eq] at hidle
        rcases hidle with hidle | hidle <;> simp [hidle] at hlast
    obtain ⟨hgrows, hdone⟩ := made_makeWithin (base.length + 1) (w.removed base) base
    refine ⟨_, hgrows.same, fun v => ?_⟩
    by_cases hv : v ∈ visits (w.absolute base)
    · rw [hdone hok v hv, if_neg fun hgone => hgone.2 ⟨hv, (rooted_removed_iff h hne).1 hroot⟩,
        (isDirectory_iff.1 h).2 v hv]
    · rw [hgrows.adds.entry?_of_not_mem hv, entry?_removed h]
      exact if_congr (iff_self_and.2 fun _ hagain => hv hagain.1) rfl rfl
  · refine ⟨(w.removed base).tree, makeWithin_of_uprooted hne (free_removed h) hroot, fun v => ?_⟩
    rw [entry?_removed h]
    exact if_congr
      (iff_self_and.2 fun _ hagain => hroot ((rooted_removed_iff h hne).2 hagain.2)) rfl rfl

/-- A directory that could not be removed is left with all ways of its path. -/
theorem left_of_not_removed {e : FileError} (h : w.tree.isDirectory (w.absolute base) = true)
    (hfailed : (w.tree.removeTree (w.absolute base)).1 = .error e) :
    Left w base (w.removed base).tree := by
  obtain ⟨-, hok | hkept⟩ := entry?_removeTree h
  · rw [hok] at hfailed
    cases hfailed
  · intro v
    rw [entry?_removed h]
    exact if_congr (iff_self_and.2 fun htakes hagain => hkept v hagain.1 htakes) rfl rfl

end Machine

end TypedClient
