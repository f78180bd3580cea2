import TypedClient.Proofs.Alike
import TypedClient.Proofs.Host.Ways
import TypedClient.Proofs.Outcome

/-! Directories that are made and removed. Making one adds directories at ways that its path passes
and changes nothing else; that it succeeds is told by what stands at those ways. Removing one clears
what is inside of it, and leaves the directory itself where its path led through what is gone. -/

namespace TypedClient

namespace FileTree

open TypedClient.Path

variable {t t' t'' : FileTree} {v way : Way} {path : String} {vs : List Way}

/-! ### Inside of a way -/

/-- The first way is inside of the other one. -/
def Inside (v way : Way) : Prop := way <+: v ∧ v ≠ way

instance (v way : Way) : Decidable (Inside v way) := inferInstanceAs (Decidable (_ ∧ _))

theorem Inside.ne_nil (h : Inside v way) : v ≠ [] := by
  rintro rfl
  exact h.2 (List.prefix_nil.1 h.1).symm

theorem entry?_clear (t : FileTree) (way v : Way) :
    entry? (t.clear way) v = if Inside v way then none else t.entry? v := by
  unfold entry? clear
  by_cases hv : v = []
  · subst hv
    rw [if_pos rfl, if_neg fun h => h.ne_nil rfl, if_pos rfl]
  · rw [if_neg hv, if_neg hv,
      Assoc.get?_filter t.entries (fun v => !way.isPrefixOf v || v == way) v]
    by_cases hin : Inside v way
    · have hbegins := List.isPrefixOf_iff_prefix.2 hin.1
      rw [if_pos hin, if_neg (by simp [hbegins, hin.2])]
    · have hkept : (!way.isPrefixOf v || v == way) = true := by
        by_contra hgone
        rw [Bool.not_eq_true, Bool.or_eq_false_iff, Bool.not_eq_false', beq_eq_false_iff_ne]
          at hgone
        exact hin ⟨List.isPrefixOf_iff_prefix.1 hgone.1, hgone.2⟩
      rw [if_neg hin, if_pos hkept]

theorem entry?_set (t : FileTree) (way : Way) (e : FileEntry) (hway : way ≠ []) (v : Way) :
    entry? (t.set way e) v = if v = way then some e else t.entry? v := by
  unfold entry? set
  by_cases hv : v = []
  · rw [if_pos hv, if_neg (by rintro rfl; exact hway hv), if_pos hv]
  · rw [if_neg hv, if_neg hv, Assoc.get?_put]
    exact if_congr eq_comm rfl rfl

/-! ### Directories that are added -/

/-- Directories have been added at some of the ways, and nothing else has changed. -/
structure Adds (vs : List Way) (t t' : FileTree) : Prop where
  kept : ∀ {v e}, t.entry? v = some e → t'.entry? v = some e
  added : ∀ {v e}, t'.entry? v = some e → t.entry? v = some e ∨ (v ∈ vs ∧ e = .directory)

theorem Adds.refl (vs : List Way) (t : FileTree) : Adds vs t t := ⟨fun h => h, fun h => .inl h⟩

theorem Adds.trans (h : Adds vs t t') (h' : Adds vs t' t'') : Adds vs t t'' where
  kept hv := h'.kept (h.kept hv)
  added hv := (h'.added hv).elim h.added .inr

theorem Adds.mono {ws : List Way} (h : Adds vs t t') (hsub : ∀ v ∈ vs, v ∈ ws) : Adds ws t t' where
  kept := h.kept
  added hv := (h.added hv).imp_right fun ⟨hmem, he⟩ => ⟨hsub _ hmem, he⟩

theorem Adds.entry?_of_not_mem (h : Adds vs t t') (hv : v ∉ vs) : t'.entry? v = t.entry? v := by
  cases hnew : t'.entry? v with
  | some e => exact ((h.added hnew).resolve_right fun hadded => hv hadded.1).symm
  | none =>
    cases hold : t.entry? v with
    | none => rfl
    | some e =>
      rw [h.kept hold] at hnew
      cases hnew

/-- What is read is read again where directories have been added. -/
theorem Adds.read {text : String} (h : Adds vs t t') (hread : t.read path = .ok text) :
    t'.read path = .ok text := by
  rw [read_eq_ok] at hread ⊢
  exact ⟨hread.1, fun v hv => h.kept (hread.2.1 v hv), h.kept hread.2.2⟩

/-! ### Slashes at the end of a path -/

theorem names_dropSlashes (path : String) :
    names (dropSlashes path).toList = names path.toList := by
  have hdrop : ∀ cs : List Char,
      names (cs.dropWhile (· == '/')).reverse = names cs.reverse := by
    intro cs
    induction cs with
    | nil => rfl
    | cons c cs ih =>
      rw [List.dropWhile_cons]
      split
      · next hc => rw [ih, List.reverse_cons, beq_iff_eq.1 hc, names_concat_slash]
      · rfl
  have hnames := hdrop path.toList.reverse
  rw [List.reverse_reverse] at hnames
  rw [← hnames]
  unfold dropSlashes
  split
  · next hnil =>
    rw [hnil]
    split <;> rfl
  · rw [String.toList_ofList]

/-- The last piece of a path, apart from slashes at its end. -/
def lastPiece (path : String) : String := (piecesOf (dropSlashes path)).getLast?.getD ""

theorem piecesOf_ne_nil (path : String) : piecesOf path ≠ [] :=
  mt List.map_eq_nil_iff.1 (Text.pieces_ne_nil _ _)

theorem piecesOf_dropSlashes (path : String) :
    piecesOf (dropSlashes path) = (piecesOf (dropSlashes path)).dropLast ++ [lastPiece path] := by
  obtain ⟨init, last, h⟩ := List.eq_nil_or_concat (piecesOf (dropSlashes path)) |>.resolve_left
    (piecesOf_ne_nil _)
  rw [lastPiece, h]
  simp

theorem lastPiece_of_append {front last : List Char} (hpath : path.toList = front ++ last)
    (hfront : front = [] ∨ front.getLast? = some '/') (hslash : '/' ∉ last) (hne : last ≠ []) :
    lastPiece path = String.ofList last := by
  have hsame : dropSlashes path = path := by
    have hkept : (path.toList.reverse.dropWhile (· == '/')) = path.toList.reverse := by
      obtain ⟨init, c, hlast⟩ := (List.eq_nil_or_concat last).resolve_left hne
      have hc : c ≠ '/' := by
        rintro rfl
        exact hslash (by simp [hlast])
      rw [hpath, hlast]
      simp [hc]
    unfold dropSlashes
    rw [hkept, List.reverse_reverse]
    split
    · next hnil =>
      rw [hpath] at hnil
      exact absurd (List.append_eq_nil_iff.1 hnil).2 hne
    · exact String.ofList_toList
  rw [lastPiece, hsame, piecesOf, hpath]
  rcases hfront with rfl | hfront
  · rw [List.nil_append, Text.pieces_of_not_mem hslash]
    rfl
  · obtain ⟨init, rfl⟩ := List.getLast?_eq_some_iff.1 hfront
    rw [List.append_assoc, List.singleton_append, Text.pieces_append_cut (by decide),
      Text.pieces_of_not_mem hslash]
    simp

/-- Before its last piece, a path passes the ways of the names before the last one, and where its
last piece says nothing, the way that it leads to. -/
theorem mem_passed_dropSlashes {ns last : List String} (hnames : names path.toList = ns ++ last)
    (hlast : last.length ≤ 1) (h : v ∈ passed [] (piecesOf (dropSlashes path))) :
    v ∈ trail [] ns ∨ (isIdle (lastPiece path) = true ∧ v = target path) := by
  rw [piecesOf_dropSlashes, passed_concat, ← mem_trail_filter] at h
  have hall := filter_piecesOf (dropSlashes path)
  rw [names_dropSlashes, hnames, piecesOf_dropSlashes, List.filter_append] at hall
  generalize (piecesOf (dropSlashes path)).dropLast.filter (fun piece => !isIdle piece) = front
    at h hall
  cases hidle : isIdle (lastPiece path) with
  | true =>
    have hfront : front = ns ++ last := by simpa [hidle] using hall
    have htarget : target path = reached [] front := by rw [target_eq, hnames, hfront]
    rw [htarget]
    subst hfront
    match last, hlast with
    | [], _ =>
      rw [List.append_nil] at h
      exact .inl h
    | [piece], _ =>
      rcases mem_trail.1 h with h | rfl
      · rw [passed_concat] at h
        exact .inl h
      · exact .inr ⟨rfl, rfl⟩
  | false =>
    left
    have hfront : front ++ [lastPiece path] = ns ++ last := by simpa [hidle] using hall
    match last, hlast with
    | [], _ =>
      rw [List.append_nil] at hfront
      rw [← hfront]
      exact mem_trail_append.2 (.inl h)
    | [piece], _ =>
      rw [← (List.append_inj' hfront rfl).1]
      exact h

theorem dropSlashes_ne_empty (h : path ≠ "") : dropSlashes path ≠ "" := by
  unfold dropSlashes
  split
  · rw [if_neg h]
    decide
  · next hne =>
    intro hempty
    exact hne (String.ofList_eq_empty_iff.1 hempty)

theorem visits_dropSlashes (path : String) : target (dropSlashes path) = target path ∧
    ∀ v, v ∈ visits (dropSlashes path) ↔ v ∈ visits path :=
  visits_congr (names_dropSlashes path)

/-! ### Making a directory -/

/-- Where a path can be followed, a directory is made if nothing is there. -/
theorem makeDirectory_of_directories (hne : path ≠ "")
    (h : ∀ v ∈ passed [] (piecesOf (dropSlashes path)), t.entry? v = some .directory) :
    t.makeDirectory path = if t.entry? (target path) = none
      then .ok (t.set (target path) .directory) else .error .alreadyThere := by
  have hlocate : t.locate (dropSlashes path) = .ok (target path) := by
    rw [locate, if_neg (dropSlashes_ne_empty hne), follow_eq_ok.2 ⟨h, rfl⟩]
    exact congrArg Except.ok (visits_dropSlashes path).1
  unfold makeDirectory
  rw [hlocate]
  dsimp only [bind, Except.bind]
  cases t.entry? (target path) <;> rfl

/-- Where something is missing on the way, nothing is made. -/
theorem makeDirectory_of_missing (hne : path ≠ "")
    (h : ∀ v ∈ passed [] (piecesOf (dropSlashes path)),
      t.entry? v = some .directory ∨ t.entry? v = none)
    (hmissing : ∃ v ∈ passed [] (piecesOf (dropSlashes path)), t.entry? v = none) :
    t.makeDirectory path = .error .missing := by
  unfold makeDirectory locate
  rw [if_neg (dropSlashes_ne_empty hne), follow_of_missing h hmissing]
  rfl

theorem adds_of_makeDirectory (h : t.makeDirectory path = .ok t') :
    Adds (visits path) t t' ∧ ∀ v ∈ visits path, t'.entry? v = some .directory := by
  obtain ⟨way, hlocate, h⟩ := except_bind_eq_ok.1 h
  unfold locate at hlocate
  split at hlocate
  · cases hlocate
  obtain ⟨hpassed, hway⟩ := follow_eq_ok.1 hlocate
  have hway : way = target path := hway.trans (visits_dropSlashes path).1
  subst hway
  split at h
  · cases h
  · next hnone =>
    cases h
    have hne : target path ≠ [] := fun hnil => by
      rw [hnil, entry?_nil] at hnone
      cases hnone
    have hset := entry?_set t (target path) .directory hne
    refine ⟨⟨fun {v e} hv => ?_, fun {v e} hv => ?_⟩, fun v hv => ?_⟩
    · rw [hset, if_neg (by rintro rfl; rw [hnone] at hv; cases hv)]
      exact hv
    · rw [hset] at hv
      split at hv
      · next heq =>
        cases hv
        exact .inr ⟨heq ▸ target_mem_visits path, rfl⟩
      · exact .inl hv
    · rw [hset]
      split
      · rfl
      · next hv' =>
        rcases mem_trail.1 ((visits_dropSlashes path).2 v |>.2 hv) with hv | hv
        · exact hpassed v hv
        · exact absurd (hv.trans (visits_dropSlashes path).1) hv'

end FileTree

namespace Machine

open FileTree

variable {w w' w'' : Machine} {path parent : String} {vs : List Way}

/-! ### Making directories on a machine -/

theorem run_change (w : Machine) (path : String)
    (f : FileTree → String → Except FileError FileTree) : (change path f).run w =
      match f w.tree (w.absolute path) with
      | .ok tree => (.ok (), { w with tree })
      | .error e => (.error e, w) := by
  unfold change
  rw [StateT.run_bind, StateT.run_get, pure_bind]
  dsimp only
  cases f w.tree (w.absolute path) <;> rfl

theorem run_makeDirectory (w : Machine) (path : String) :
    (Host.makeDirectory path : StateM Machine _).run w =
      match w.tree.makeDirectory (w.absolute path) with
      | .ok tree => (.ok (), { w with tree })
      | .error e => (.error e, w) :=
  run_change w path FileTree.makeDirectory

theorem run_unlessThere (w : Machine) (path : String) (e : FileError) :
    (Host.unlessThere path e : StateM Machine _).run w =
      (if w.tree.isDirectory (w.absolute path) then .ok () else .error e, w) := by
  have hlook : (Host.isDirectory path : StateM Machine _).run w =
      (w.tree.isDirectory (w.absolute path), w) := rfl
  unfold Host.unlessThere
  rw [StateT.run_bind, hlook]
  cases w.tree.isDirectory (w.absolute path) <;> rfl

/-- The machine is the same but for directories that have been added at some of the ways. -/
structure Grows (vs : List Way) (w w' : Machine) : Prop where
  same : w' = { w with tree := w'.tree }
  adds : Adds vs w.tree w'.tree

theorem Grows.refl (vs : List Way) (w : Machine) : Grows vs w w := ⟨rfl, Adds.refl vs w.tree⟩

theorem Grows.trans (h : Grows vs w w') (h' : Grows vs w' w'') : Grows vs w w'' :=
  ⟨by rw [h'.same, h.same], h.adds.trans h'.adds⟩

theorem Grows.mono {ws : List Way} (h : Grows vs w w') (hsub : ∀ v ∈ vs, v ∈ ws) : Grows ws w w' :=
  ⟨h.same, h.adds.mono hsub⟩

theorem Grows.absolute (h : Grows vs w w') (path : String) :
    w'.absolute path = w.absolute path := by
  rw [h.same]
  rfl

/-- Directories have been added along a path; all of them are there if nothing went wrong. -/
structure Made (path : String) (w : Machine) (result : Except FileError Unit × Machine) : Prop where
  grows : Grows (visits (w.absolute path)) w result.2
  done : result.1 = .ok () → ∀ v ∈ visits (w.absolute path),
    result.2.tree.entry? v = some .directory

theorem Made.after {result : Except FileError Unit × Machine}
    (h : Grows (visits (w.absolute path)) w w') (h' : Made path w' result) :
    Made path w result := by
  have hpath := h.absolute path
  refine ⟨h.trans (hpath ▸ h'.grows), fun hok => ?_⟩
  rw [← hpath]
  exact h'.done hok

theorem made_unlessThere (w : Machine) (path : String) (e : FileError) :
    Made path w ((Host.unlessThere path e : StateM Machine _).run w) := by
  rw [run_unlessThere]
  refine ⟨Grows.refl _ w, fun h => ?_⟩
  split at h
  · next hthere => exact (isDirectory_iff.1 hthere).2
  · cases h

theorem made_makeDirectory (w : Machine) (path : String) :
    Made path w ((Host.makeDirectory path : StateM Machine _).run w) := by
  rw [run_makeDirectory]
  cases h : w.tree.makeDirectory (w.absolute path) with
  | ok tree =>
    obtain ⟨hadds, hdone⟩ := adds_of_makeDirectory h
    exact ⟨⟨rfl, hadds⟩, fun _ => hdone⟩
  | error e => exact ⟨Grows.refl _ w, nofun⟩

/-! ### Parents -/

/-- The names of a path on the machine are those of its directory there, and at most one more. -/
theorem names_absolute_parent (h : Path.parent? path = some parent) (hne : parent ≠ "") :
    ∃ last, Path.names (w.absolute path).toList = Path.names (w.absolute parent).toList ++ last ∧
      last.length ≤ 1 := by
  have hpath : path ≠ "" := by
    rintro rfl
    cases h
  obtain ⟨last, hnames, hlength⟩ := Path.names_of_parent? h
  refine ⟨last, ?_, hlength⟩
  rw [absolute, absolute, if_neg hpath, if_neg hne, Path.names_join, Path.names_join,
    (Path.isAbsolute_parent? h).2 hne, hnames]
  split
  · rfl
  · rw [List.append_assoc]

theorem visits_absolute_parent (h : Path.parent? path = some parent) (hne : parent ≠ "") :
    ∀ v ∈ visits (w.absolute parent), v ∈ visits (w.absolute path) := by
  obtain ⟨last, hnames, -⟩ := names_absolute_parent (w := w) h hne
  intro v hv
  rw [mem_visits] at hv ⊢
  rw [hnames]
  exact mem_trail_append.2 (.inl hv)

/-- Tries again after the directory of the path has been made. -/
def retry (path : String) : StateM Machine (Except FileError Unit) := do
  match ← Host.makeDirectory path with
  | .ok () => pure (.ok ())
  | .error e => Host.unlessThere path e

theorem run_retry (w : Machine) (path : String) : (retry path).run w =
    match (Host.makeDirectory path : StateM Machine _).run w with
    | (.ok (), w₁) => (.ok (), w₁)
    | (.error e, w₁) => (Host.unlessThere path e : StateM Machine _).run w₁ := by
  unfold retry
  rw [StateT.run_bind]
  obtain ⟨r, w₁⟩ := (Host.makeDirectory path : StateM Machine _).run w
  cases r <;> rfl

theorem made_retry (w : Machine) (path : String) : Made path w ((retry path).run w) := by
  have hmade := made_makeDirectory w path
  rw [run_retry]
  generalize (Host.makeDirectory path : StateM Machine _).run w = result at hmade
  obtain ⟨r, w₁⟩ := result
  cases r with
  | ok => exact hmade
  | error e => exact Made.after hmade.grows (made_unlessThere w₁ path e)

/-- A directory whose parents are made first. -/
theorem run_makeWithin (fuel : Nat) (w : Machine) (path : String) :
    (Host.makeWithin (fuel + 1) path : StateM Machine _).run w =
      match (Host.makeDirectory path : StateM Machine _).run w, Path.parent? path with
      | (.ok (), w₁), _ => (.ok (), w₁)
      | (.error .missing, w₁), none => (.error (.other "failed to create whole tree"), w₁)
      | (.error .missing, w₁), some parent =>
        match (if parent = "" then pure (.ok ()) else Host.makeWithin fuel parent :
          StateM Machine (Except FileError Unit)).run w₁ with
        | (.ok (), w₂) => (retry path).run w₂
        | (.error e, w₂) => (.error e, w₂)
      | (.error e, w₁), _ => (Host.unlessThere path e : StateM Machine _).run w₁ := by
  rw [Host.makeWithin, StateT.run_bind]
  generalize (Host.makeDirectory path : StateM Machine _).run w = result
  obtain ⟨r, w₁⟩ := result
  rcases r with e | ⟨⟩
  · by_cases he : e = .missing
    · subst he
      cases Path.parent? path with
      | none => rfl
      | some parent =>
        dsimp only
        by_cases hparent : parent = ""
        · rw [if_pos hparent, if_pos hparent]
          show StateT.run (pure _ >>= _) w₁ = _
          rw [pure_bind]
          rfl
        · rw [if_neg hparent, if_neg hparent]
          show StateT.run (Host.makeWithin fuel parent >>= _) w₁ = _
          rw [StateT.run_bind]
          generalize (Host.makeWithin fuel parent : StateM Machine _).run w₁ = result
          obtain ⟨r, w₂⟩ := result
          cases r <;> rfl
    · cases e <;> first | exact absurd rfl he | rfl
  · rfl

theorem made_makeWithin (fuel : Nat) (w : Machine) (path : String) :
    Made path w ((Host.makeWithin fuel path : StateM Machine _).run w) := by
  induction fuel generalizing w path with
  | zero => exact made_unlessThere w path .missing
  | succ fuel ih =>
    have hfirst := made_makeDirectory w path
    rw [run_makeWithin]
    generalize (Host.makeDirectory path : StateM Machine _).run w = result at hfirst
    obtain ⟨r, w₁⟩ := result
    match r, hparent : Path.parent? path with
    | .ok (), _ => exact hfirst
    | .error .missing, none => exact ⟨hfirst.grows, nofun⟩
    | .error .missing, some parent =>
      dsimp only
      by_cases hne : parent = ""
      · rw [if_pos hne]
        exact Made.after hfirst.grows (made_retry w₁ path)
      · rw [if_neg hne]
        have hup := (ih w₁ parent).grows.mono (visits_absolute_parent hparent hne)
        rw [hfirst.grows.absolute] at hup
        generalize (Host.makeWithin fuel parent : StateM Machine _).run w₁ = result at hup
        obtain ⟨r, w₂⟩ := result
        have hgrows := hfirst.grows.trans hup
        cases r with
        | ok => exact Made.after hgrows (made_retry w₂ path)
        | error e => exact ⟨hgrows, nofun⟩
    | .error .busy, _ | .error .alreadyThere, _ | .error .notDirectory, _
    | .error .isDirectory, _ | .error .invalidArgument, _ | .error .notEmpty, _
    | .error (.other _), _ => exact Made.after hfirst.grows (made_unlessThere w₁ path _)

theorem made_makeDirectories (w : Machine) (path : String) :
    Grows (visits (w.absolute path)) w
      ((Host.makeDirectories path : StateM Machine _).run w).2 := by
  unfold Host.makeDirectories
  split
  · exact Grows.refl _ w
  · exact (made_makeWithin _ w path).grows

/-! ### What can be made -/

/-- Nothing but directories stands at the ways that a path passes. -/
def Free (t : FileTree) (path : String) : Prop :=
  ∀ v ∈ visits path, t.entry? v = some .directory ∨ t.entry? v = none

/-- Where everything that a path passes before its last piece is there, the directory can be
made. -/
theorem attempt_ok (hne : w.absolute path ≠ "") (hfree : Free w.tree (w.absolute path))
    (h : ∀ v ∈ passed [] (piecesOf (dropSlashes (w.absolute path))),
      w.tree.entry? v = some .directory) :
    (∃ w', (Host.makeDirectory path : StateM Machine _).run w = (.ok (), w')) ∨
      ((Host.makeDirectory path : StateM Machine _).run w = (.error .alreadyThere, w) ∧
        w.tree.isDirectory (w.absolute path) = true) := by
  rw [run_makeDirectory, makeDirectory_of_directories hne h]
  by_cases hthere : w.tree.entry? (target (w.absolute path)) = none
  · rw [if_pos hthere]
    exact .inl ⟨_, rfl⟩
  · rw [if_neg hthere]
    refine .inr ⟨rfl, isDirectory_iff.2 ⟨hne, fun v hv => ?_⟩⟩
    rcases mem_trail.1 ((visits_dropSlashes _).2 v |>.2 hv) with hv | hv
    · exact h v hv
    · rw [hv, show reached [] (piecesOf (dropSlashes (w.absolute path))) =
        target (w.absolute path) from (visits_dropSlashes _).1]
      exact (hfree _ (target_mem_visits _)).resolve_right hthere

/-- Then it is there after another attempt. -/
theorem retry_ok (hne : w.absolute path ≠ "") (hfree : Free w.tree (w.absolute path))
    (h : ∀ v ∈ passed [] (piecesOf (dropSlashes (w.absolute path))),
      w.tree.entry? v = some .directory) : ((retry path).run w).1 = .ok () := by
  rw [run_retry]
  rcases attempt_ok hne hfree h with ⟨w', hmade⟩ | ⟨hfailed, hthere⟩
  · rw [hmade]
  · rw [hfailed]
    show ((Host.unlessThere path .alreadyThere : StateM Machine _).run w).1 = .ok ()
    rw [run_unlessThere, if_pos hthere]

/-- The directory of a path ends in a piece that says something, or has no names. -/
theorem idle_of_parent? (h : Path.parent? path = some parent) (hne : parent ≠ "")
    (hidle : Path.isIdle (lastPiece (w.absolute parent)) = true) :
    Path.names parent.toList = [] := by
  rcases Path.last_of_parent? h with hnames | ⟨front, last, hparent, hfront, hslash, hlast⟩
  · exact hnames
  simp only [List.mem_cons, List.not_mem_nil, or_false, not_or] at hlast
  have hwhole : ∃ front, (w.absolute parent).toList = front ++ last ∧
      (front = [] ∨ front.getLast? = some '/') := by
    rw [absolute, if_neg hne]
    cases habsolute : Path.isAbsolute parent with
    | true =>
      rw [Path.join, if_pos habsolute]
      exact ⟨front, hparent, hfront⟩
    | false =>
      obtain ⟨more, hjoin, hmore⟩ := Path.exists_toList_join w.directory habsolute
      refine ⟨more ++ front, by rw [hjoin, hparent, List.append_assoc], ?_⟩
      rcases hfront with rfl | hfront
      · rwa [List.append_nil]
      · exact .inr (by rw [List.getLast?_append, hfront]; rfl)
  obtain ⟨front, hwhole, hfront⟩ := hwhole
  rw [lastPiece_of_append hwhole hfront hslash hlast.1, Path.isIdle, Bool.or_eq_true,
    decide_eq_true_eq, decide_eq_true_eq] at hidle
  rcases hidle with hidle | hidle
  · exact absurd (String.ofList_eq_empty_iff.1 hidle) hlast.1
  · exact absurd (by simpa using congrArg String.toList hidle) hlast.2

/-- Whether the place is there that a path is taken from. -/
def Rooted (w : Machine) (path : String) : Prop :=
  Path.isAbsolute path = true ∨ ∀ v ∈ visits w.directory, w.tree.entry? v = some .directory

theorem absolute_ne_empty (h : path ≠ "") : w.absolute path ≠ "" := by
  rw [absolute, if_neg h, Path.join]
  split
  · exact h
  · split <;> simp [h]

/-- The names of the place that a path is taken from. -/
def rootNames (w : Machine) (path : String) : List String :=
  if Path.isAbsolute path then [] else Path.names w.directory.toList

theorem names_absolute (h : path ≠ "") : Path.names (w.absolute path).toList =
    rootNames w path ++ Path.names path.toList := by
  rw [absolute, if_neg h, Path.names_join, rootNames]
  split <;> rfl

theorem Rooted.directories (h : Rooted w path) :
    ∀ v ∈ trail [] (rootNames w path), w.tree.entry? v = some .directory := by
  intro v hv
  unfold rootNames at hv
  split at hv
  · rw [List.mem_singleton.1 hv]
    exact entry?_nil w.tree
  · next hrelative => exact h.resolve_left hrelative v (mem_visits.2 hv)

theorem Free.of_adds (h : Free t path) (hadds : Adds vs t t') : Free t' path := by
  intro v hv
  cases hv' : t'.entry? v with
  | none => exact .inr rfl
  | some e =>
    rcases hadds.added hv' with hold | ⟨-, rfl⟩
    · rcases h v hv with hthere | hnone
      · rw [hthere] at hold
        cases hold
        exact .inl rfl
      · rw [hnone] at hold
        cases hold
    · exact .inl rfl

/-- The directory of a path and its parents can be made where nothing but directories stands in the
way; a path that ends in a single dot has to lead to a directory already. -/
theorem makeWithin_ok {fuel : Nat} (hfuel : path.length < fuel) (hne : path ≠ "")
    (hfree : Free w.tree (w.absolute path)) (hroot : Rooted w path)
    (hend : Path.isIdle (lastPiece (w.absolute path)) = true →
      w.tree.entry? (target (w.absolute path)) = some .directory) :
    ((Host.makeWithin fuel path : StateM Machine _).run w).1 = .ok () := by
  induction fuel generalizing path with
  | zero => exact absurd hfuel (Nat.not_lt_zero _)
  | succ fuel ih =>
    rw [run_makeWithin]
    by_cases hmissing : ∃ v ∈ passed [] (piecesOf (dropSlashes (w.absolute path))),
        w.tree.entry? v = none
    · have hfirst : (Host.makeDirectory path : StateM Machine _).run w = (.error .missing, w) := by
        rw [run_makeDirectory, makeDirectory_of_missing (absolute_ne_empty hne)
          (fun v hv => hfree v ((visits_dropSlashes _).2 v |>.1 (mem_trail.2 (.inl hv)))) hmissing]
      rw [hfirst]
      -- what is missing is passed before the last name
      have hbefore : ∀ {ns last : List String},
          Path.names (w.absolute path).toList = ns ++ last → last.length ≤ 1 →
            ∃ v ∈ trail [] ns, w.tree.entry? v = none := by
        intro ns last hnames hlast
        obtain ⟨v, hv, hnone⟩ := hmissing
        rcases mem_passed_dropSlashes hnames hlast hv with hv | ⟨hidle, rfl⟩
        · exact ⟨v, hv, hnone⟩
        · rw [hend hidle] at hnone
          cases hnone
      have hroots : ∀ {last : List String}, Path.names path.toList = last → ¬ last.length ≤ 1 := by
        intro last hlast hlength
        obtain ⟨v, hv, hnone⟩ := hbefore (by rw [names_absolute hne, hlast]) hlength
        rw [hroot.directories v hv] at hnone
        cases hnone
      cases hparent : Path.parent? path with
      | none => exact absurd (Nat.zero_le 1) (hroots (Path.names_of_parent?_eq_none hparent))
      | some parent =>
        obtain ⟨last, hnames, hlast⟩ := Path.names_of_parent? hparent
        by_cases hempty : parent = ""
        · subst hempty
          exact absurd hlast (hroots hnames)
        dsimp only
        rw [if_neg hempty]
        have habsolute := (Path.isAbsolute_parent? hparent).2 hempty
        have hroot' : Rooted w parent := by
          rw [Rooted, habsolute]
          exact hroot
        have hok : ((Host.makeWithin fuel parent : StateM Machine _).run w).1 = .ok () := by
          have hshorter := Path.length_of_parent? hparent hempty
          refine ih (by omega) hempty
            (fun v hv => hfree v (visits_absolute_parent hparent hempty v hv)) hroot'
            fun hidle => ?_
          refine hroot'.directories _ (mem_trail.2 (.inr ?_))
          rw [target_eq, names_absolute hempty, idle_of_parent? hparent hempty hidle,
            List.append_nil]
        have hmade := made_makeWithin fuel w parent
        generalize (Host.makeWithin fuel parent : StateM Machine _).run w = result at hok hmade
        obtain ⟨r, w₂⟩ := result
        cases hok
        have hpath := hmade.grows.absolute path
        obtain ⟨last, hnames, hlast⟩ := names_absolute_parent (w := w) hparent hempty
        refine retry_ok (absolute_ne_empty hne) (hpath ▸ hfree.of_adds hmade.grows.adds) ?_
        rw [hpath]
        intro v hv
        rcases mem_passed_dropSlashes hnames hlast hv with hv | ⟨hidle, rfl⟩
        · exact hmade.done rfl v (mem_visits.2 hv)
        · exact hmade.grows.adds.kept (hend hidle)
    · have hthere : ∀ v ∈ passed [] (piecesOf (dropSlashes (w.absolute path))),
          w.tree.entry? v = some .directory := fun v hv =>
        (hfree v ((visits_dropSlashes _).2 v |>.1 (mem_trail.2 (.inl hv)))).resolve_right
          fun hnone => hmissing ⟨v, hv, hnone⟩
      rcases attempt_ok (absolute_ne_empty hne) hfree hthere with ⟨w', hmade⟩ | ⟨hfailed, hthere⟩
      · rw [hmade]
      · rw [hfailed]
        show ((Host.unlessThere path .alreadyThere : StateM Machine _).run w).1 = .ok ()
        rw [run_unlessThere, if_pos hthere]

end Machine

end TypedClient
