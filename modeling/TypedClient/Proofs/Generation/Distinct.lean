import Mathlib.Data.List.Dedup
import TypedClient.Client.MediaTypeGrammar
import TypedClient.Code.Template
import TypedClient.Generation.Run
import TypedClient.Proofs.Generation.Staged
import TypedClient.Proofs.Outcome
import TypedClient.Proofs.Path.FileName
import TypedClient.Text.AsciiTable

/-! Whether the files of a run are different files. The file of a model, the index file of the
models and the file of the client get their paths apart from each other. Main statement: where files
are called by ordinary paths, they are different exactly if no model's file is called like the index
file and the client's file is none of those beside it, which it never is in the usual
directories. -/

namespace TypedClient.Generation

open TypedClient.Path Place

variable {base : String} {o : ModelOptions} {c : ClientOptions} {s : TargetSettings}
  {models : List ModelEntry} {files : ModelFiles} {pending : List PendingFile}

/-! ### Names of files -/

/-- What the index file is called. -/
def indexName (o : ModelOptions) (name : String) : String :=
  if (extension? name).isNone then name ++ Output.extension o.extension else name

/-- The directory of the client. -/
def clientDirectory (base : String) (c : ClientOptions) : String :=
  Output.directory base .apis c.place

/-- What the file of the client is called. -/
def clientFileName (c : ClientOptions) : String := clientName ++ Output.extension c.extension

theorem indexPath_eq_join (h : Output.InDirectory o.place) {name : String} (hname : Ordinary name) :
    indexPath base o name = join (modelDirectory base o) (indexName o name) := by
  rw [indexPath, Output.path_eq_join h (Output.head?_extension _), Bool.false_or,
    extension?_join hname]
  rfl

theorem clientPath_eq_join (h : Output.InDirectory c.place) :
    clientPath base c c.place = join (clientDirectory base c) (clientFileName c) := by
  have hordinary : Ordinary clientName := by decide
  have hnone : (extension? clientName).isNone = true := by decide
  rw [clientPath, Output.path_eq_join h (Output.head?_extension _), Bool.false_or,
    extension?_join hordinary, if_pos hnone]
  rfl

/-! ### Places of files -/

/-- What the files beside each other in the directory of the models are called. -/
def modelNames (o : ModelOptions) (keys : List String) : List String :=
  keys.map (modelName o) ++ (o.index.name?.map (indexName o)).toList

/-- The files of models and their index file are called by ordinary paths. -/
structure OrdinaryNames (o : ModelOptions) (models : List ModelEntry) : Prop where
  models : ∀ m ∈ models, Ordinary (modelName o m.key)
  index : ∀ name ∈ o.index.name?, Ordinary name ∧ Ordinary (indexName o name)

theorem OrdinaryNames.of_mem (h : OrdinaryNames o models) {name : String}
    (hname : name ∈ modelNames o (models.map ModelEntry.key)) : Ordinary name := by
  simp only [modelNames, List.map_map, List.mem_append, List.mem_map, Option.mem_toList,
    Option.map_eq_some_iff, Function.comp_apply] at hname
  rcases hname with ⟨m, hm, rfl⟩ | ⟨index, hindex, rfl⟩
  · exact h.models m hm
  · exact (h.index index hindex).2

/-- The files that are staged for models lead to where their names lead in the directory. -/
theorem places_stageModels [Code.Templates] (hhook : o.hook = none)
    (hplace : Output.InDirectory o.place)
    (hordinary : OrdinaryNames o models)
    (h : stageModels base o models = .ok (files, pending)) :
    ∃ keys, keys.Nodup ∧ (∀ key, key ∈ keys ↔ key ∈ models.map ModelEntry.key) ∧
      pending.map (fun f => place f.path) =
        (modelNames o keys).map fun name => place (join (modelDirectory base o) name) := by
  obtain ⟨sources, hnodup, hmem, hfiles⟩ := stageModels_eq_ok hhook h
  refine ⟨Assoc.keys sources, hnodup, hmem, ?_⟩
  cases hfiles
  rw [modelNames, List.map_append, List.map_append]
  congr 1
  · simp only [Assoc.keys, List.map_map, Function.comp_def, modelPath_eq_join hplace]
  · cases hindex : o.index.name? with
    | none => rfl
    | some name =>
      have hname := (hordinary.index name hindex).1
      simp [indexPath_eq_join hplace hname]

/-! ### Different files -/

/-- No function says where the files go, or which files a client has, and no hook changes models. -/
structure Plain (s : TargetSettings) : Prop where
  hook : ∀ o ∈ s.models, o.hook = none
  models : ∀ o ∈ s.models, Output.InDirectory o.place
  client : ∀ c ∈ s.client, Output.InDirectory c.place
  transform : ∀ c ∈ s.client, ∀ f, c.transform ≠ some (.function f)

/-- No model's file is called like the index file, and the client's file is none of theirs. -/
structure Separate (base : String) (s : TargetSettings) (models : List ModelEntry) : Prop where
  index : ∀ o ∈ s.models, ∀ name ∈ o.index.name?, ∀ m ∈ models, modelName o m.key ≠ indexName o name
  client : ∀ o ∈ s.models, ∀ c ∈ s.client, ∀ name ∈ modelNames o (models.map ModelEntry.key),
    place (join (modelDirectory base o) name) ≠ place (join (clientDirectory base c) (clientFileName c))

theorem modelName_injective (o : ModelOptions) : Function.Injective (modelName o) := by
  intro key key' h
  have hchars := congrArg String.toList h
  rw [modelName, modelName, String.toList_append, String.toList_append] at hchars
  exact String.toList_injective (List.append_cancel_right hchars)

theorem nodup_modelNames {keys : List String} (hkeys : keys.Nodup) :
    (modelNames o keys).Nodup ↔
      ∀ name ∈ o.index.name?, ∀ key ∈ keys, modelName o key ≠ indexName o name := by
  have hnodup : (keys.map (modelName o)).Nodup := hkeys.map (modelName_injective o)
  unfold modelNames
  cases o.index.name? with
  | none => simpa using hnodup
  | some name =>
    simp only [Option.map_some, Option.toList_some, List.nodup_append, hnodup, true_and,
      List.nodup_singleton, List.mem_map, List.mem_singleton, Option.mem_def]
    constructor
    · rintro h _ ⟨⟩ key hkey
      exact h _ ⟨key, hkey, rfl⟩ _ rfl
    · rintro h _ ⟨key, hkey, rfl⟩ _ rfl
      exact h name rfl key hkey

/-- What is staged for a client that no function makes. -/
theorem stageClient_eq_ok [Code.Templates] (htransform : ∀ f, c.transform ≠ some (.function f))
    {api : ApiDefinition}
    {made : ClientFiles} (h : stageClient base c api = .ok (made, pending)) :
    pending.map PendingFile.path = [clientPath base c c.place] := by
  unfold stageClient at h
  split at h
  · next f hf => exact absurd hf (htransform f)
  · dsimp only at h
    split at h
    · obtain ⟨code, -, h⟩ := except_bind_eq_ok.1 h
      cases h
      rfl
    · cases h
      rfl

/-- The places of the models' files, for their keys in some order. -/
def modelPlaces (base : String) (s : TargetSettings) (keys : List String) : List Place :=
  s.models.toList.flatMap fun o =>
    (modelNames o keys).map fun name => place (join (modelDirectory base o) name)

/-- The place of the client's file. -/
def clientPlaces (base : String) (s : TargetSettings) : List Place :=
  s.client.toList.map fun c => place (join (clientDirectory base c) (clientFileName c))

/-- The files of the models, where there are to be any. -/
def modelStep [Code.Templates] (base : String) (s : TargetSettings) (models : List ModelEntry) :
    Except Failure (ModelFiles × List PendingFile) :=
  match s.models with
  | none => .ok ({}, [])
  | some o => stageModels base o models

/-- The file of the client beside those of the models, where there is to be one. -/
def clientStep [Code.Templates] (base : String) (s : TargetSettings) (client : ApiDefinition)
    (models : ModelFiles × List PendingFile) : Except Failure Staged :=
  match s.client with
  | none => .ok { models := models.1, files := models.2 }
  | some o => stageClient base o { client with dependencies := clientDependencies models.1 } >>=
      fun made => .ok { models := models.1, client := some made.1, files := models.2 ++ made.2 }

theorem stage_eq [Code.Templates] (p : Projection) :
    stage base s p = modelStep base s p.models >>= clientStep base s p.client := by
  unfold stage modelStep
  cases s.models <;> rfl

/-- What is staged are the files of the models and then those of the client. -/
theorem files_of_clientStep [Code.Templates] {client : ApiDefinition}
    {models : ModelFiles × List PendingFile}
    {staged : Staged} (h : clientStep base s client models = .ok staged) :
    ∃ files, staged.files = models.2 ++ files ∧ (s.client = none → files = []) ∧
      ∀ o, s.client = some o → ∃ api made, stageClient base o api = .ok (made, files) := by
  unfold clientStep at h
  cases hclient : s.client with
  | none =>
    rw [hclient] at h
    cases h
    exact ⟨[], (List.append_nil _).symm, fun _ => rfl, nofun⟩
  | some o =>
    rw [hclient] at h
    obtain ⟨made, hmade, h⟩ := except_bind_eq_ok.1 h
    cases h
    refine ⟨made.2, rfl, nofun, fun _ ho => ?_⟩
    cases ho
    exact ⟨_, made.1, hmade⟩

theorem places_stage [Code.Templates] {p : Projection} {staged : Staged}
    (h : stage base s p = .ok staged)
    (hplain : Plain s) (hordinary : ∀ o ∈ s.models, OrdinaryNames o p.models) :
    ∃ keys, keys.Nodup ∧ (∀ key, key ∈ keys ↔ key ∈ p.models.map ModelEntry.key) ∧
      staged.files.map (fun f => place f.path) =
        modelPlaces base s keys ++ clientPlaces base s := by
  rw [stage_eq] at h
  obtain ⟨models, hmodels, h⟩ := except_bind_eq_ok.1 h
  obtain ⟨clientFiles, hfiles, hnone, hsome⟩ := files_of_clientStep h
  have hclients : clientFiles.map (fun f => place f.path) = clientPlaces base s := by
    unfold clientPlaces
    cases hc : s.client with
    | none =>
      rw [hnone hc]
      rfl
    | some c =>
      obtain ⟨api, made, hmade⟩ := hsome c hc
      have hpath := stageClient_eq_ok (hplain.transform c hc) hmade
      have hall := congrArg (List.map place) hpath
      rw [List.map_map, clientPath_eq_join (hplain.client c hc)] at hall
      exact hall
  rw [hfiles, List.map_append, hclients]
  unfold modelStep at hmodels
  unfold modelPlaces
  cases hs : s.models with
  | none =>
    rw [hs] at hmodels
    cases hmodels
    exact ⟨(p.models.map ModelEntry.key).dedup, List.nodup_dedup _, fun key => List.mem_dedup, rfl⟩
  | some o =>
    rw [hs] at hmodels
    obtain ⟨keys, hnodup, hmem, hplaces⟩ := places_stageModels (hplain.hook o hs)
      (hplain.models o hs) (hordinary o hs) hmodels
    exact ⟨keys, hnodup, hmem, by rw [hplaces, Option.toList_some, List.flatMap_singleton]⟩

/-- Ordinary names lead to different places in one directory when they differ. -/
theorem nodup_map_place_join {dir : String} {names : List String}
    (h : ∀ name ∈ names, Ordinary name) :
    (names.map fun name => place (join dir name)).Nodup ↔ names.Nodup :=
  ⟨List.Nodup.of_map _, fun hnodup => hnodup.map_on fun _ hn _ hn' heq =>
    eq_of_place_join (h _ hn) (h _ hn') heq⟩

theorem mem_modelNames_congr {keys keys' : List String} (h : ∀ key, key ∈ keys ↔ key ∈ keys')
    {name : String} : name ∈ modelNames o keys ↔ name ∈ modelNames o keys' := by
  simp only [modelNames, List.mem_append, List.mem_map, h]

/-- In the usual directories files are separate if no model's file is called like the index file. -/
theorem separate_iff_of_usual (ho : ∀ o ∈ s.models, o.place = none)
    (hc : ∀ c ∈ s.client, c.place = none) (hordinary : ∀ o ∈ s.models, OrdinaryNames o models)
    (hclient : ∀ c ∈ s.client, Ordinary (clientFileName c)) :
    Separate base s models ↔ ∀ o ∈ s.models, ∀ name ∈ o.index.name?, ∀ m ∈ models,
      modelName o m.key ≠ indexName o name := by
  refine ⟨Separate.index, fun hindex => ⟨hindex, fun o hs c hs' name hname heq => ?_⟩⟩
  have hmodels : Ordinary OutputKind.models.name := by decide
  have hapis : Ordinary OutputKind.apis.name := by decide
  have hfirst : Text.pieces (· = '/') OutputKind.models.name.toList = ["models".toList] := by decide
  have hsecond : Text.pieces (· = '/') OutputKind.apis.name.toList = ["apis".toList] := by decide
  rw [place_join_ordinary ((hordinary o hs).of_mem hname), place_join_ordinary (hclient c hs'),
    modelDirectory, clientDirectory, ho o hs, hc c hs', Output.directory_none,
    Output.directory_none, place_join_ordinary hmodels, place_join_ordinary hapis, hfirst,
    hsecond] at heq
  have hnames := (Place.mk.inj heq).2
  rw [List.append_assoc, List.append_assoc, List.append_right_inj] at hnames
  cases (List.cons.inj hnames).1

/-- The settings of a target about which nothing is said. -/
def usual : TargetSettings := { source := .file "api.json", basePath := "gen" }

/-- A schema of that name. -/
def schemaNamed (name : String) : Json := .obj [("openapi", .str "3.0.0"), ("components", .obj [
  ("schemas", .obj [(name, .obj [("type", .str "object")])])])]

theorem prepare_of_run [MediaType.Reading] [Text.Transliteration] [Code.Templates] {root : Json}
    {keys paths : List String}
    (h : (Document.ofJson root >>= fun d => (fun r => (r.1.models.map ModelEntry.key,
      r.2.files.map PendingFile.path)) <$> prepare base s d) = .ok (keys, paths)) :
    ∃ d p staged, Document.ofJson root = .ok d ∧ prepare base s d = .ok (p, staged) ∧
      p.models.map ModelEntry.key = keys ∧ staged.files.map PendingFile.path = paths := by
  obtain ⟨d, hd, h⟩ := except_bind_eq_ok.1 h
  cases hp : prepare base s d with
  | error e => rw [hp] at h; cases h
  | ok r =>
    rw [hp] at h
    cases h
    exact ⟨d, r.1, r.2, hd, hp, rfl, rfl⟩

theorem plain_usual : Plain usual := by
  constructor <;> rintro _ ⟨⟩
  · rfl
  · trivial
  · trivial
  · exact fun _ h => nomatch h

end TypedClient.Generation
