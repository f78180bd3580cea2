import TypedClient.Client.MediaTypeGrammar
import TypedClient.Code.Template
import TypedClient.Proofs.Generation.Staged
import TypedClient.Proofs.Model.Keys
import TypedClient.Proofs.Path.FileName
import TypedClient.Text.AsciiTable

/-! Whether the files of models stay in their directory. A file is called by the key of its models
and an extension, and a key has whatever the name of a schema has: it may begin with a slash, or go
up by two dots. Main statement: a file is inside the directory exactly where what it is called stays
in, which is so where the name of the schema has no slash. -/

namespace TypedClient.Generation

open TypedClient.Path Place

variable {base : String} {o : ModelOptions} {files : ModelFiles} {pending : List PendingFile}

/-- What the file of a key without slashes is called is a name, whatever the extension is but for
one or two dots. -/
theorem ordinary_modelName {key : String} (hkey : '/' ∉ key.toList)
    (hslash : '/' ∉ (Output.extension o.extension).toList)
    (hdots : Output.extension o.extension ∉ [".", ".."]) : Ordinary (modelName o key) := by
  have hhead := Output.head?_extension o.extension
  unfold modelName
  generalize Output.extension o.extension = ext at hslash hdots hhead
  obtain ⟨rest, hext⟩ := List.head?_eq_some_iff.1 hhead
  have hone : ext.toList ≠ ['.'] := fun h => hdots (by simp [← String.toList_inj, h])
  have htwo : ext.toList ≠ ['.', '.'] := fun h => hdots (by simp [← String.toList_inj, h])
  refine ordinary_of_name ?_ ?_
  · rw [String.toList_append, List.mem_append, not_or]
    exact ⟨hkey, hslash⟩
  · rw [String.toList_append, IsName]
    rw [hext] at hone htwo ⊢
    cases key.toList with
    | nil => simpa using ⟨by simpa using hone, by simpa using htwo⟩
    | cons c cs =>
      cases cs with
      | nil => simpa using fun _ h => hone (by rw [h])
      | cons => simp

/-- The files of models, and which of them are in the directory of the models: those that are called
by something that stays in, such as what comes of a schema without a slash in its name. -/
theorem model_inside_iff [MediaType.Reading] [Text.Transliteration] [Code.Templates] {root : Json}
    {d : Document} (h : Document.ofJson root = .ok d)
    {options : Client.Options} {p : Projection} (hp : Projection.build d options = .ok p)
    (hhook : o.hook = none) (hplace : Output.InDirectory o.place)
    (hs : stageModels base o p.models = .ok (files, pending)) {key path : String}
    (hkey : (key, path) ∈ files.paths) :
    (Below (place path) (place (modelDirectory base o)) ↔
      StaysIn (place (modelDirectory base o)) (place (modelName o key))) ∧
    ∃ name ∈ Assoc.keys d.schemas, ∃ parsed, TypeName.parse name = .ok parsed ∧
      key = parsed.fileKey ∧
      ('/' ∉ name.toList → '/' ∉ (Output.extension o.extension).toList →
        Output.extension o.extension ∉ [".", ".."] →
          Below (place path) (place (modelDirectory base o))) := by
  obtain ⟨⟨m, hm, rfl⟩, rfl⟩ := (mem_paths hhook hs).1 hkey
  obtain ⟨name, hname, parsed, hparsed, heq⟩ := Projection.key_of_model h hp hm
  rw [modelPath_eq_join hplace]
  have hiff := below_join_iff (modelDirectory base o) (modelName o m.key)
  refine ⟨hiff, name, hname, parsed, hparsed, heq, fun hslash hext hdots => hiff.2 ?_⟩
  refine staysIn_ordinary (ordinary_modelName (fun hin => ?_) hext hdots) _
  rw [heq] at hin
  rcases TypeName.mem_of_mem_fileKey hparsed hin with hdot | hin
  · cases hdot
  · exact hslash hin

/-- Three schemas: one that has a plain name, and two that lead out of any directory. -/
def roaming : Json := .obj [("openapi", .str "3.0.0"), ("components", .obj [("schemas", .obj [
  ("Pet", .obj [("type", .str "object")]),
  ("../Pet", .obj [("type", .str "object")]),
  ("/Pet", .obj [("type", .str "object")])])])]

/-- What is staged for them under the usual settings. -/
theorem paths_of_roaming :
    ∃ d p files pending, Document.ofJson roaming = .ok d ∧ Projection.build d {} = .ok p ∧
      stageModels "gen" {} p.models = .ok (files, pending) ∧
      files.paths = [("Pet", "gen/models/Pet.ts"), ("../Pet", "gen/models/../Pet.ts"),
        ("/Pet", "/Pet.ts")] := by
  have hrun : (Document.ofJson roaming >>= fun d => (fun p =>
      (stageModels "gen" {} p.models).toOption.map fun staged => staged.1.paths) <$>
        Projection.build d {}) =
      .ok (some [("Pet", "gen/models/Pet.ts"), ("../Pet", "gen/models/../Pet.ts"),
        ("/Pet", "/Pet.ts")]) := by decide +kernel
  obtain ⟨d, p, hd, hp, hpaths⟩ := Projection.exists_of_run hrun
  obtain ⟨⟨files, pending⟩, hstaged, hpaths⟩ := Option.map_eq_some_iff.1 hpaths
  cases hresult : stageModels "gen" {} p.models with
  | error e => rw [hresult] at hstaged; cases hstaged
  | ok staged =>
    rw [hresult] at hstaged
    cases hstaged
    exact ⟨d, p, files, pending, hd, hp, hresult, hpaths⟩

/-- The file of a schema whose name goes up is outside of the directory. -/
theorem outside_of_roaming :
    ¬ ∀ (root : Json) (d : Document) (options : Client.Options) (p : Projection) (base : String)
      (o : ModelOptions) (files : ModelFiles) (pending : List PendingFile),
      Document.ofJson root = .ok d → Projection.build d options = .ok p → o.hook = none →
        Output.InDirectory o.place → stageModels base o p.models = .ok (files, pending) →
          ∀ key path, (key, path) ∈ files.paths →
            Below (place path) (place (modelDirectory base o)) := by
  intro hclaim
  obtain ⟨d, p, files, pending, hd, hp, hs, hpaths⟩ := paths_of_roaming
  have hinside := hclaim roaming d {} p "gen" {} files pending hd hp rfl trivial hs
  have hup := hinside "../Pet" "gen/models/../Pet.ts" (by rw [hpaths]; decide)
  exact absurd hup (by decide)

theorem model_inside_iff_roaming :
    ∃ d p files pending, Document.ofJson roaming = .ok d ∧ Projection.build d {} = .ok p ∧
      stageModels "gen" {} p.models = .ok (files, pending) ∧
      ("Pet", "gen/models/Pet.ts") ∈ files.paths ∧
      Below (place "gen/models/Pet.ts") (place (modelDirectory "gen" {})) ∧
      ("/Pet", "/Pet.ts") ∈ files.paths ∧
      ¬ StaysIn (place (modelDirectory "gen" {})) (place (modelName {} "/Pet")) := by
  obtain ⟨d, p, files, pending, hd, hp, hs, hpaths⟩ := paths_of_roaming
  have hpet : ("Pet", "gen/models/Pet.ts") ∈ files.paths := by rw [hpaths]; decide
  have hroot : ("/Pet", "/Pet.ts") ∈ files.paths := by rw [hpaths]; decide
  have hplace : Output.InDirectory ({} : ModelOptions).place := trivial
  obtain ⟨hinside, -⟩ := model_inside_iff hd hp rfl hplace hs hpet
  obtain ⟨houtside, -⟩ := model_inside_iff hd hp rfl hplace hs hroot
  have hstays : StaysIn (place (modelDirectory "gen" {})) (place (modelName {} "Pet")) :=
    staysIn_ordinary (by decide) _
  refine ⟨d, p, files, pending, hd, hp, hs, hpet, hinside.2 hstays, hroot, ?_⟩
  rw [← houtside]
  decide

end TypedClient.Generation
