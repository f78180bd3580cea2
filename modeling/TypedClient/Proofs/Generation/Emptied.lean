import TypedClient.Client.MediaTypeGrammar
import TypedClient.Code.Template
import TypedClient.Generation.Run
import TypedClient.Proofs.Host.Removal
import TypedClient.Reach
import TypedClient.Text.AsciiTable

/-! The document of a run and the directory that the run empties first. A run loads the document of
a file as it was when the run began, unless the path of the file passes something that emptying the
base path takes and does not make again; then the document is missing. -/

namespace TypedClient

open FileTree

variable {w : Machine} {base path text : String} {s : TargetSettings} {d : Document}

/-! ### Loading -/

/-- A text that is a document as JSON. -/
def Document.Holds (text : String) (d : Document) : Prop :=
  ∃ root, Json.parse text = .ok root ∧ Document.ofJson root = .ok d

theorem Document.exists_holds (text : String) (f : Document → Bool)
    (h : (DocumentSource.parseText (.file "") "" text >>= fun root =>
      f <$> Document.ofJson root) = .ok true) : ∃ d, Document.Holds text d ∧ f d = true := by
  obtain ⟨root, hparse, h⟩ := except_bind_eq_ok.1 h
  have hread : Json.parse text = .ok root := by
    unfold DocumentSource.parseText at hparse
    split at hparse
    · next v hv => rw [hv, Except.ok.inj hparse]
    · cases hparse
  cases hd : Document.ofJson root with
  | error e =>
    rw [hd] at h
    cases h
  | ok d =>
    rw [hd] at h
    exact ⟨d, ⟨root, hread, hd⟩, Except.ok.inj h⟩

theorem DocumentSource.run_load_of_read (hread : w.tree.read (w.absolute path) = .ok text)
    (hholds : Document.Holds text d) :
    ((DocumentSource.file path).load : StateM Machine _).run w = (.ok d, w) := by
  obtain ⟨root, hparse, hdocument⟩ := hholds
  have hfetch : ((DocumentSource.file path).fetch : StateM Machine _).run w = (.ok root, w) := by
    have hloaded : (Host.readText path : StateM Machine _).run w = (.ok text, w) :=
      congrArg (·, w) hread
    unfold DocumentSource.fetch
    dsimp only
    rw [StateT.run_bind, hloaded]
    show (DocumentSource.parseText (.file path) "file" text, w) = _
    rw [DocumentSource.parseText, hparse]
  unfold DocumentSource.load
  rw [StateT.run_bind, hfetch]
  show (Document.ofJson root, w) = _
  rw [hdocument]

theorem DocumentSource.run_load_of_error {e : FileError}
    (hread : w.tree.read (w.absolute path) = .error e) :
    ((DocumentSource.file path).load : StateM Machine _).run w =
      (.error (.fetch path (DocumentSource.fileReason path e)), w) := by
  have hfetch : ((DocumentSource.file path).fetch : StateM Machine _).run w =
      (.error (.fetch path (DocumentSource.fileReason path e)), w) := by
    have hloaded : (Host.readText path : StateM Machine _).run w = (.error e, w) :=
      congrArg (·, w) hread
    unfold DocumentSource.fetch
    dsimp only
    rw [StateT.run_bind, hloaded]
    rfl
  unfold DocumentSource.load
  rw [StateT.run_bind, hfetch]
  rfl

namespace Generation

/-! ### Emptying -/

theorem run_emptyDirectory (w : Machine) (base : String) :
    ((emptyDirectory base : StateM Machine _).run w).2 =
      match w.tree.isThere (w.absolute base) with
      | .error _ => w
      | .ok false => ((Host.makeDirectories base : StateM Machine _).run w).2
      | .ok true => match (w.tree.removeTree (w.absolute base)).1 with
        | .error _ => w.removed base
        | .ok () => ((Host.makeDirectories base : StateM Machine _).run (w.removed base)).2 := by
  have hthere : (Host.isThere base : StateM Machine _).run w =
      (w.tree.isThere (w.absolute base), w) := rfl
  unfold emptyDirectory
  rw [StateT.run_bind, hthere]
  cases w.tree.isThere (w.absolute base) with
  | error e => rfl
  | ok there =>
    cases there with
    | false => rfl
    | true =>
      dsimp only [bind, StateT.bind, StateT.run, pure, StateT.pure]
      rw [show (Host.removeTree base : StateM Machine _) w = _ from Machine.run_removeTree w base]
      dsimp only [as]
      cases (w.tree.removeTree (w.absolute base)).1 <;> rfl

theorem run_clean (w : Machine) (base : String) (hclean : s.clean = true) :
    ((clean base s : StateM Machine _).run w).2 =
      ((emptyDirectory base : StateM Machine _).run w).2 := by
  unfold clean
  rw [hclean, if_pos rfl, StateT.run_bind]
  generalize (emptyDirectory base : StateM Machine _).run w = result
  obtain ⟨r, w₁⟩ := result
  cases r <;> rfl

/-- Emptying a directory that is there changes the tree alone, and leaves what is not taken or is
made again. -/
theorem left_of_clean (hclean : s.clean = true)
    (h : w.tree.isDirectory (w.absolute base) = true) :
    ∃ tree, ((clean base s : StateM Machine _).run w).2 = { w with tree } ∧
      Machine.Left w base tree := by
  obtain ⟨hne, hall⟩ := isDirectory_iff.1 h
  have hthere : w.tree.isThere (w.absolute base) = .ok true := by
    unfold isThere locate
    rw [if_neg hne, follow_eq_ok.2 ⟨fun v hv => hall v (mem_trail.2 (.inl hv)), rfl⟩]
    exact congrArg (fun e => Except.ok (Option.isSome e)) (hall _ (target_mem_visits _))
  rw [run_clean w base hclean, run_emptyDirectory, hthere]
  cases hremoved : (w.tree.removeTree (w.absolute base)).1 with
  | error e => exact ⟨_, rfl, Machine.left_of_not_removed h hremoved⟩
  | ok => exact Machine.left_of_makeDirectories h

/-- Where there is no directory to be emptied, directories may be made. -/
theorem adds_of_clean (h : s.clean = true → w.tree.isDirectory (w.absolute base) = false) :
    ∃ tree, ((clean base s : StateM Machine _).run w).2 = { w with tree } ∧
      Adds (visits (w.absolute base)) w.tree tree := by
  have hsame : ∃ tree, w = { w with tree } ∧ Adds (visits (w.absolute base)) w.tree tree :=
    ⟨w.tree, rfl, Adds.refl _ _⟩
  by_cases hclean : s.clean = true
  · rw [run_clean w base hclean, run_emptyDirectory]
    cases hthere : w.tree.isThere (w.absolute base) with
    | error e => exact hsame
    | ok there =>
      cases there with
      | false =>
        obtain ⟨hgrows, hadds⟩ := Machine.made_makeDirectories w base
        exact ⟨_, hgrows, hadds⟩
      | true =>
        have hfailed : w.tree.removeTree (w.absolute base) = (.error .notDirectory, w.tree) := by
          have hnot := h hclean
          unfold isThere at hthere
          unfold isDirectory at hnot
          unfold removeTree
          cases hlocate : w.tree.locate (w.absolute base) with
          | error e => rw [hlocate] at hthere; cases e <;> cases hthere
          | ok way =>
            rw [hlocate] at hthere hnot
            dsimp only at hthere hnot ⊢
            match w.tree.entry? way, hthere, hnot with
            | some (.file _), _, _ => rfl
        have hremoved : w.removed base = w := by
          rw [Machine.removed, hfailed]
        rw [hfailed, hremoved]
        exact hsame
  · unfold clean
    rw [if_neg hclean]
    exact hsame

/-! ### Running -/

/-- What is left of a run after its document has been loaded. -/
def proceed [MediaType.Reading] [Text.Transliteration] [Code.Templates] [Graph.Components]
    (base : String) (up : Bool) (s : TargetSettings) (cleaned : Option Warning)
    (d : Document) : StateM Machine (Bool × Except RunFailure Report) :=
  match prepare base s d with
  | .error e => pure (up, .error (.document e))
  | .ok (p, staged) => do
    let w ← writeAll up staged.files
    pure (w.up, match w.failure with
      | some e => .error (.file e)
      | none => .ok (report base s d p staged cleaned w))

/-- A run on a document that is known before anything is done. -/
def runOn [MediaType.Reading] [Text.Transliteration] [Code.Templates] [Graph.Components]
    (directory : String) (up : Bool) (s : TargetSettings) (d : Document) :
    StateM Machine (Bool × Except RunFailure Report) := do
  proceed (basePath directory s) up s (← clean (basePath directory s) s) d

theorem run_eq [MediaType.Reading] [Text.Transliteration] [Code.Templates] [Graph.Components]
    (directory : String) (up : Bool) (s : TargetSettings) (w : Machine) :
    (run directory up s : StateM Machine _).run w =
      match (s.source.load : StateM Machine _).run
        ((clean (basePath directory s) s : StateM Machine _).run w).2 with
      | (.error e, w₁) => ((up, .error (.document e)), w₁)
      | (.ok d, w₁) => (proceed (basePath directory s) up s
          ((clean (basePath directory s) s : StateM Machine _).run w).1 d).run w₁ := by
  unfold run
  rw [StateT.run_bind]
  generalize (clean (basePath directory s) s : StateM Machine _).run w = result
  obtain ⟨cleaned, w₁⟩ := result
  show ((s.source.load >>= _ : StateM Machine _).run w₁) = _
  rw [StateT.run_bind]
  generalize (s.source.load : StateM Machine _).run w₁ = result
  obtain ⟨loaded, w₂⟩ := result
  cases loaded with
  | error e => rfl
  | ok d =>
    show _ = (proceed (basePath directory s) up s cleaned d).run w₂
    unfold proceed
    show ((match prepare (basePath directory s) s d with
      | .error e => _
      | .ok (p, staged) => _ : StateM Machine _).run w₂) = _
    cases prepare (basePath directory s) s d <;> rfl

/-! ### The document that was there -/

/-- Whether emptying the base path takes something that the path of a file passes and does not make
it again. -/
def Lost (w : Machine) (directory : String) (s : TargetSettings) (path : String) : Prop :=
  s.clean = true ∧ w.tree.isDirectory (w.absolute (basePath directory s)) = true ∧
    ∃ v ∈ visits (w.absolute path), Takes (w.absolute (basePath directory s)) v ∧
      ¬ Machine.Remade w (basePath directory s) v

instance (w : Machine) (directory : String) (s : TargetSettings) (path : String) :
    Decidable (Lost w directory s path) := inferInstanceAs (Decidable (_ ∧ _ ∧ _))

/-- A document in which nothing is described. -/
def bareText : String := "\x7b\"openapi\": \"3.0.0\"\x7d"

/-- A machine with a document at a way, and with a directory that files of an earlier run are in. -/
def bareMachine (way : Way) : Machine :=
  { tree := { entries := [(["gen"], .directory), (["gen", "old.ts"], .file ""),
      (way, .file bareText)] } }

def bareSettings (path : String) : TargetSettings := { source := .file path, basePath := "gen" }

end Generation

end TypedClient
