import TypedClient.Client.MediaTypeGrammar
import TypedClient.Code.Template
import TypedClient.Proofs.Generation.Distinct
import TypedClient.Proofs.Path.Directory
import TypedClient.Text.AsciiTable

/-! Where the models come from that a client imports. The code of every client takes them from the
directory `models` beside its own, wherever the files of models go. Main statement: this leads to
the index file of the models exactly if that file is called `index` and stands in such a directory,
so in the usual directories exactly if it is called so. -/

namespace TypedClient

namespace Code

/-- What a client takes models from. -/
def modelModule : String := "../models"

/-- A line of the code takes names from a module. -/
def TakesFrom (module code : String) : Prop :=
  ∃ ls, code = lines ls ∧ "\x7d from '" ++ module ++ "';" ∈ ls

theorem takesFrom_client {d : ApiDefinition} (h : d.dependencies ≠ []) :
    TakesFrom modelModule (client d) := by
  have hline : "\x7d from '" ++ modelModule ++ "';" ∈ importLines d.dependencies := by
    have hempty : d.dependencies.isEmpty = false := by simp [h]
    rw [importLines, hempty]
    exact List.mem_append_right _ (List.mem_singleton.2 rfl)
  refine ⟨_, rfl, ?_⟩
  simp only [List.mem_append]
  tauto

end Code

namespace Generation

open TypedClient.Path Place

variable {base : String} {o : ModelOptions} {c : ClientOptions} {s : TargetSettings}
  {models : List ModelEntry} {files : ModelFiles} {pending : List PendingFile}

/-! ### What a client imports -/

theorem staged_models [Code.Templates] (hhook : o.hook = none)
    (h : stageModels base o models = .ok (files, pending)) :
    files.models = models ∧ files.indexPath = o.index.name?.map (indexPath base o) := by
  unfold stageModels at h
  rw [hhook] at h
  obtain ⟨codes, -, h⟩ := except_bind_eq_ok.1 h
  cases h
  exact ⟨rfl, rfl⟩

theorem path_of_model [Code.Templates] (hhook : o.hook = none)
    (h : stageModels base o models = .ok (files, pending)) {m : ModelEntry} (hm : m ∈ models) :
    ∃ path, Assoc.get? files.paths m.key = some path := by
  have hpath : (m.key, modelPath base o m.key) ∈ files.paths :=
    (mem_paths hhook h).2 ⟨⟨m, hm, rfl⟩, rfl⟩
  have hkey : Assoc.get? files.paths m.key ≠ none := fun hnone =>
    Assoc.get?_eq_none_iff.1 hnone (List.mem_map.2 ⟨_, hpath, rfl⟩)
  exact Option.ne_none_iff_exists'.1 hkey

/-- A client has an import for the file of every model. -/
theorem clientDependencies_ne_nil [Code.Templates] (hhook : o.hook = none)
    (h : stageModels base o models = .ok (files, pending)) (hmodels : models ≠ []) :
    clientDependencies files ≠ [] := by
  obtain ⟨m, hm⟩ := List.exists_mem_of_ne_nil models hmodels
  obtain ⟨path, hget⟩ := path_of_model hhook h hm
  have hmem : (m.key, m.exportName) ∈
      (files.models.map fun m => (m.key, m.exportName)).eraseDups := by
    rw [List.mem_eraseDups, (staged_models hhook h).1]
    exact List.mem_map.2 ⟨m, hm, rfl⟩
  have hdependency : ⟨m.key, m.exportName, path⟩ ∈ clientDependencies files :=
    List.mem_filterMap.2 ⟨_, hmem, congrArg (Option.map _) hget⟩
  exact List.ne_nil_of_mem hdependency

/-- What is staged for models and for a client whose code is the usual one. -/
theorem staged_of_prepare [MediaType.Reading] [Text.Transliteration] [Code.Templates]
    {d : Document} {p : Projection} {staged : Staged}
    (h : prepare base s d = .ok (p, staged)) (ho : s.models = some o) (hc : s.client = some c)
    (htransform : c.transform = none) :
    ∃ pending, stageModels base o p.models = .ok (staged.models, pending) ∧
      staged.client.map ClientFiles.paths = some [(clientName, clientPath base c c.place)] ∧
      { path := clientPath base c c.place
        code := Code.client { p.client with dependencies := clientDependencies staged.models }
        format := c.format } ∈ staged.files := by
  obtain ⟨_, -, h⟩ := except_bind_eq_ok.1 h
  obtain ⟨_, hstage, h⟩ := except_bind_eq_ok.1 h
  cases h
  rw [stage_eq] at hstage
  obtain ⟨⟨files, pending⟩, hmodels, hclient⟩ := except_bind_eq_ok.1 hstage
  unfold modelStep at hmodels
  rw [ho] at hmodels
  unfold clientStep stageClient at hclient
  rw [hc] at hclient
  dsimp only at hclient
  rw [htransform] at hclient
  cases hclient
  exact ⟨pending, hmodels, rfl, List.mem_append_right _ (List.mem_singleton.2 rfl)⟩

/-! ### Where it leads -/

/-- The file that is meant by a directory of modules. -/
def moduleIndex (o : ModelOptions) : String := "index" ++ Output.extension o.extension

/-- The path of what a client in a file takes models from. -/
def importedPath (o : ModelOptions) (file : String) : String :=
  join (directoryOf file) (Code.modelModule ++ "/" ++ moduleIndex o)

/-- The import of a client in a file leads to the index file of the models. -/
def Leads (o : ModelOptions) (models : ModelFiles) (file : String) : Prop :=
  ∃ path ∈ models.indexPath, place (importedPath o file) = place path

/-- The directory of models beside a directory. -/
def beside (dir : Place) : Place := dir.leave.enter OutputKind.models.name.toList

theorem isName_index (asked : Option String) (h : '/' ∉ (Output.extension asked).toList) :
    '/' ∉ ("index" ++ Output.extension asked).toList ∧
      IsName ("index" ++ Output.extension asked).toList := by
  rw [String.toList_append, List.mem_append, not_or]
  exact ⟨⟨by decide, h⟩, by simp [IsName]⟩

theorem place_importedPath (o : ModelOptions) (file : String)
    (hslash : '/' ∉ (Output.extension o.extension).toList) :
    place (importedPath o file) =
      (beside (place (directoryOf file))).enter (moduleIndex o).toList := by
  have hrelative : isAbsolute (Code.modelModule ++ "/" ++ moduleIndex o) = false := by
    rw [String.append_assoc, isAbsolute_append (by decide)]
    decide
  have hchars : (Code.modelModule ++ "/" ++ moduleIndex o).toList =
      ['.', '.'] ++ '/' :: (OutputKind.models.name.toList ++ '/' :: (moduleIndex o).toList) := by
    simp [Code.modelModule, OutputKind.name]
  have hindex : '/' ∉ (moduleIndex o).toList := (isName_index o.extension hslash).1
  have hup : ∀ p : Place, p.follow ['.', '.'] = p.leave := fun _ => rfl
  rw [importedPath, place_join hrelative, hchars, follow_append_slash, follow_append_slash, hup,
    follow_of_not_mem _ hindex, follow_of_not_mem _ (by decide), beside]

/-- The import leads to a file exactly if that is called `index` and stands in the directory of
models beside the client's. -/
theorem place_importedPath_iff {file path : String} {name : List Char}
    (hslash : '/' ∉ (Output.extension o.extension).toList) (hname : fileName? path = some name)
    (h : IsName name) :
    place (importedPath o file) = place path ↔
      name = (moduleIndex o).toList ∧
        place (directoryOf path) = beside (place (directoryOf file)) := by
  have hindex : IsName (moduleIndex o).toList := (isName_index o.extension hslash).2
  rw [place_importedPath o file hslash, place_of_fileName? hname, enter_inj hindex h]
  constructor
  · rintro ⟨hdir, hname⟩
    exact ⟨hname.symm, hdir.symm⟩
  · rintro ⟨hname, hdir⟩
    exact ⟨hdir.symm, hname.symm⟩

/-- What the index file is called is an ordinary path, and no extension has a slash. -/
structure PlainNames (o : ModelOptions) (c : ClientOptions) : Prop where
  index : ∀ name ∈ o.index.name?, Ordinary name ∧ Ordinary (indexName o name)
  models : '/' ∉ (Output.extension o.extension).toList
  client : '/' ∉ (Output.extension c.extension).toList

theorem fileName?_indexPath (base : String) (hplace : Output.InDirectory o.place) {name : String}
    (h : Ordinary name ∧ Ordinary (indexName o name)) :
    ∃ last, fileName? (indexPath base o name) = some last ∧ IsName last := by
  rw [indexPath_eq_join hplace h.1, fileName?_join h.2]
  exact exists_fileName? h.2

/-- In the usual directories the import leads to what is called `index` among the models. -/
theorem place_importedPath_of_usual (hnames : PlainNames o c) (ho : o.place = none)
    (hc : c.place = none) :
    place (importedPath o (clientPath base c c.place)) =
      place (join (modelDirectory base o) (moduleIndex o)) := by
  obtain ⟨hslash, hfile⟩ := isName_index c.extension hnames.client
  obtain ⟨hslash', hindex⟩ := isName_index o.extension hnames.models
  have hapis : place (clientDirectory base c) = (place base).enter OutputKind.apis.name.toList := by
    rw [clientDirectory, hc]
    exact place_join (by decide)
  have hmodels : place (modelDirectory base o) =
      (place base).enter OutputKind.models.name.toList := by
    rw [modelDirectory, ho]
    exact place_join (by decide)
  have hdir : place (directoryOf (clientPath base c c.place)) = place (clientDirectory base c) := by
    rw [clientPath_eq_join (by rw [hc]; trivial)]
    exact place_directoryOf_join hslash hfile
  rw [place_importedPath o _ hnames.models, hdir, hapis, beside, leave_enter _ (by decide),
    ← hmodels]
  exact (place_join_name hslash' hindex).symm

/-- A client takes models from the index file of the models exactly if that is called `index` and
stands in a directory `models` beside the client's, which is so in the usual directories exactly if
it is called `index`. -/
theorem import_leads_iff [MediaType.Reading] [Text.Transliteration] [Code.Templates] {d : Document}
    {p : Projection} {staged : Staged}
    (h : prepare base s d = .ok (p, staged)) (ho : s.models = some o) (hc : s.client = some c)
    (hplain : Plain s) (htransform : c.transform = none) (hmodels : p.models ≠ [])
    (hnames : PlainNames o c) :
    ∃ file ∈ staged.files,
      staged.client.map ClientFiles.paths = some [(clientName, file.path)] ∧
      Code.TakesFrom Code.modelModule file.code ∧
      (Leads o staged.models file.path ↔ ∃ path ∈ staged.models.indexPath,
        fileName? path = some (moduleIndex o).toList ∧
          place (directoryOf path) = beside (place (directoryOf file.path))) ∧
      (o.place = none → c.place = none →
        (Leads o staged.models file.path ↔
          ∃ name ∈ o.index.name?, indexName o name = moduleIndex o)) := by
  obtain ⟨pending, hstaged, hpaths, hfile⟩ := staged_of_prepare h ho hc htransform
  have hhook : o.hook = none := hplain.hook o ho
  have hplace : Output.InDirectory o.place := hplain.models o ho
  have hindex : staged.models.indexPath = o.index.name?.map (indexPath base o) :=
    (staged_models hhook hstaged).2
  refine ⟨_, hfile, hpaths, ?_, ?_, ?_⟩
  · exact Code.takesFrom_client (clientDependencies_ne_nil hhook hstaged hmodels)
  · simp only [Leads, hindex, Option.mem_map]
    refine exists_congr fun path => and_congr_right ?_
    rintro ⟨name, hname, rfl⟩
    obtain ⟨last, hlast, hisName⟩ := fileName?_indexPath base hplace (hnames.index name hname)
    rw [place_importedPath_iff hnames.models hlast hisName, hlast, Option.some_inj]
  · intro hnone hnone'
    have hordinary : Ordinary (moduleIndex o) := by
      obtain ⟨hslash, hname⟩ := isName_index o.extension hnames.models
      exact ordinary_of_name hslash hname
    simp only [Leads, hindex, place_importedPath_of_usual hnames hnone hnone', Option.mem_map,
      exists_exists_and_eq_and]
    refine exists_congr fun name => and_congr_right fun hname => ?_
    rw [indexPath_eq_join hplace (hnames.index name hname).1]
    constructor
    · exact fun h => (eq_of_place_join hordinary (hnames.index name hname).2 h).symm
    · exact fun h => by rw [h]

/-- Nothing is said about models and clients, but for where the files of models go. -/
def placed (place : Option OutputPlace) : TargetSettings :=
  { usual with models := some { place } }

theorem plain_placed (place : Option OutputPlace) (h : Output.InDirectory place) :
    Plain (placed place) := by
  constructor <;> rintro _ ⟨⟩
  · rfl
  · exact h
  · trivial
  · exact fun _ h => nomatch h

theorem plainNames_placed (place : Option OutputPlace) : PlainNames { place } {} := by
  refine ⟨?_, by simp [Output.extension, Output.defaultExtension], by decide⟩
  rintro _ ⟨⟩
  refine ⟨by decide, ?_⟩
  show Ordinary (indexName {} "index")
  decide

theorem import_leads_iff_pet :
    ∃ d p staged, Document.ofJson (schemaNamed "Pet") = .ok d ∧
      prepare "gen" (placed none) d = .ok (p, staged) ∧
      ∃ file ∈ staged.files, Code.TakesFrom Code.modelModule file.code ∧
        Leads {} staged.models file.path := by
  have hrun : (Document.ofJson (schemaNamed "Pet") >>= fun d => (fun r =>
      (r.1.models.map ModelEntry.key, r.2.files.map PendingFile.path)) <$>
        prepare "gen" (placed none) d) = .ok (["Pet"],
          ["gen/models/Pet.ts", "gen/models/index.ts", "gen/apis/index.ts"]) := by decide +kernel
  obtain ⟨d, p, staged, hd, hp, hkeys, -⟩ := prepare_of_run hrun
  have hmodels : p.models ≠ [] := fun hnil => by simp [hnil] at hkeys
  obtain ⟨file, hfile, -, htakes, -, hleads⟩ := import_leads_iff hp rfl rfl
    (plain_placed none trivial) rfl hmodels (plainNames_placed none)
  exact ⟨d, p, staged, hd, hp, file, hfile, htakes, (hleads rfl rfl).2 ⟨"index", rfl, rfl⟩⟩

/-- Where the models go to another directory, a client still takes them from the usual one. -/
theorem astray_of_types :
    ¬ ∀ (root : Json) (d : Document) (base : String) (s : TargetSettings) (o : ModelOptions)
      (c : ClientOptions) (p : Projection) (staged : Staged),
      Document.ofJson root = .ok d → s.models = some o → s.client = some c → Plain s →
        c.hook = none → c.transform = none → prepare base s d = .ok (p, staged) →
          p.models ≠ [] → ∃ file ∈ staged.files,
            staged.client.map ClientFiles.paths = some [(clientName, file.path)] ∧
              Leads o staged.models file.path := by
  intro hclaim
  have hrun : (Document.ofJson (schemaNamed "Pet") >>= fun d => (fun r =>
      (r.1.models.map ModelEntry.key, r.2.files.map PendingFile.path)) <$>
        prepare "gen" (placed (some (.directory "types"))) d) = .ok (["Pet"],
          ["gen/types/Pet.ts", "gen/types/index.ts", "gen/apis/index.ts"]) := by decide +kernel
  obtain ⟨d, p, staged, hd, hp, hkeys, -⟩ := prepare_of_run hrun
  have hmodels : p.models ≠ [] := fun hnil => by simp [hnil] at hkeys
  obtain ⟨file, -, hpaths, path, hpath, hplace⟩ := hclaim _ d "gen" _ _ _ p staged hd rfl rfl
    (plain_placed (some (.directory "types")) trivial) rfl rfl hp hmodels
  obtain ⟨pending, hstaged, hpaths', -⟩ := staged_of_prepare hp rfl rfl rfl
  have hfile : file.path = "gen/apis/index.ts" := by
    have hclient : clientPath "gen" {} none = "gen/apis/index.ts" := by decide +kernel
    rw [hpaths'] at hpaths
    rw [← hclient]
    exact (Prod.mk.inj (List.cons.inj (Option.some.inj hpaths)).1).2.symm
  have hindex : path = "gen/types/index.ts" := by
    have hpath' : indexPath "gen" { place := some (.directory "types") } "index" =
        "gen/types/index.ts" := by decide +kernel
    rw [(staged_models rfl hstaged).2] at hpath
    rw [← hpath']
    exact (Option.some.inj hpath).symm
  rw [hfile, hindex] at hplace
  exact absurd hplace (by decide)

end Generation

end TypedClient
