import TypedClient.Client.MediaTypeGrammar
import TypedClient.Code.Template
import TypedClient.Proofs.Generation.ClientImport
import TypedClient.Proofs.Model.AnyOrder
import TypedClient.Proofs.Model.Declared
import TypedClient.Proofs.TypeName.Scoped
import TypedClient.Text.AsciiTable

/-! The names that generated code imports. Imports are told apart by file and name, while the code
that uses them has the name alone: two types of one name in different scopes are both imported, and
both are called the same. Main statement: the imported names are all different, and different from
that of the importing model, exactly if no two of the types in question have one name in different
files; and so it is for the imports of the client. -/

namespace TypedClient

namespace Resolver

variable {d : Document} {r : Resolver} {t : TypeId}

/-- What is not built in has the name that is read from the name of a schema, in the scope that is
read there or in none. -/
theorem Rooted.named (hf : Faithful d r) (hg : r.graph.Ordered) (h : Rooted d r t)
    (hb : (r.graph.get t).isBuiltin = false) :
    ∃ name ∈ Assoc.keys d.schemas, ∃ parsed, TypeName.parse name = .ok parsed ∧
      (r.graph.get t).name = parsed.name ∧
      ((r.graph.get t).scope = parsed.scope ∨ (r.graph.get t).scope = "") := by
  induction t using Nat.strong_induction_on with
  | _ t ih =>
  rcases h with rfl | ⟨name, hn⟩ | ⟨id, source, made, nameable, htyped, hmade⟩
  · rw [TypeGraph.get_of_get? hg.any.1] at hb
    cases hb
  · rw [TypeGraph.get_of_get? (hg.intrinsic hn)] at hb
    cases hb
  · obtain ⟨info, hinfo, htitles⟩ := hmade.titled
    have hget := TypeGraph.get_of_get? hinfo
    cases htitles with
    | own hn hp =>
      rw [hget]
      exact ⟨_, List.mem_map.2 ⟨_, Assoc.mem_of_get? hn, rfl⟩, _, hp, rfl, .inl rfl⟩
    | kept hid =>
      rw [hget] at hb ⊢
      rcases makes_cases hf hmade.told hmade.makes with ⟨hbuiltin, -⟩ | ⟨v, hv, happlies, -⟩
      · exact absurd (hbuiltin.symm.trans hb) (by decide)
      · have hlt : v < t := hg.older hinfo v (by
          simp [TypeInfo.references, happlies.definition])
        obtain ⟨name, hmem, parsed, hparsed, hname, -⟩ := ih v hlt hv (happlies.isBuiltin ▸ hb)
        exact ⟨name, hmem, parsed, hparsed, happlies.name.trans hname, .inr happlies.scope⟩

theorem Rooted.separate (hf : Faithful d r) (hg : r.graph.Ordered) (h : Rooted d r t)
    (hb : (r.graph.get t).isBuiltin = false) :
    TypeName.Separate (r.graph.get t).scope.toList (r.graph.get t).name.toList := by
  obtain ⟨_, -, parsed, hparsed, hname, hscope⟩ := h.named hf hg hb
  have hseparate := TypeName.separate_of_parse hparsed
  rw [hname]
  rcases hscope with hscope | hscope <;> rw [hscope]
  · exact hseparate
  · exact hseparate.unscoped

/-- Where no schema's name has a dot, nothing is in a scope. -/
theorem Rooted.scope_eq (hf : Faithful d r) (hg : r.graph.Ordered) (h : Rooted d r t)
    (hb : (r.graph.get t).isBuiltin = false)
    (hnames : ∀ name ∈ Assoc.keys d.schemas, '.' ∉ name.toList) : (r.graph.get t).scope = "" := by
  obtain ⟨name, hmem, parsed, hparsed, -, hscope | hscope⟩ := h.named hf hg hb
  · rw [hscope, (TypeName.parts_of_parse hparsed).1]
    rcases TypeName.eq_or_eq_splitScope name.toList with hnone | hcut
    · rw [hnone]
    · refine absurd ?_ (hnames name hmem)
      rw [hcut]
      exact List.mem_append_right _ List.mem_cons_self
  · exact hscope

/-- An enumeration refers to nothing. -/
theorem Rooted.references_of_isEnum (hg : r.graph.Ordered) (h : Rooted d r t)
    (he : (r.graph.get t).isEnum = true) : (r.graph.get t).references = [] := by
  rcases h with rfl | ⟨name, hn⟩ | ⟨id, source, made, nameable, htyped, hmade⟩
  · rw [TypeGraph.get_of_get? hg.any.1]
    rfl
  · rw [TypeGraph.get_of_get? (hg.intrinsic hn)]
    rfl
  · obtain ⟨info, hinfo, htitles⟩ := hmade.titled
    rw [TypeGraph.get_of_get? hinfo] at he ⊢
    rw [references_of_titles htitles]
    have he : made.isEnum = true := by
      cases htitles <;> exact he
    have htold := hmade.told
    cases hmade.makes with
    | openArray => cases he
    | array => cases he
    | enum =>
      obtain ⟨primitive, literals, rfl⟩ := Document.source?_enum htold
      rfl
    | @object plan base properties made _ hb hp hmade =>
      obtain ⟨shape, hstart, hgenerics⟩ := Document.source?_object htold
      rw [hstart] at hmade
      generalize plan.generics = generics at hmade
      cases hmade <;> cases he

end Resolver

namespace Model

open Resolver

variable {d : Document} {r : Resolver} {g : TypeGraph} {t : TypeId}

/-! ### Imports of a model -/

/-- The imported names are all different, and none is the name that the model itself exports. -/
structure Unambiguous (m : ModelEntry) : Prop where
  distinct : (m.dependencies.map Dependency.modules).Nodup
  other : m.exportName ∉ m.dependencies.map Dependency.modules

/-- Types of one name are in one file. -/
def OneFile (g : TypeGraph) (ts : List TypeId) : Prop :=
  ∀ u ∈ ts, ∀ v ∈ ts, (g.get u).name = (g.get v).name → (g.get u).fileKey = (g.get v).fileKey

theorem nodup_dependencies (g : TypeGraph) (t : TypeId) : (entry g t).dependencies.Nodup := by
  unfold entry
  dsimp only
  split
  · exact List.nodup_nil
  · exact nodup_eraseDups _

/-- A model imports what it needs from other files. -/
theorem mem_dependencies (henum : (g.get t).isEnum = true → g.dependencies t = [])
    {dependency : Dependency} :
    dependency ∈ (entry g t).dependencies ↔ ∃ u ∈ g.dependencies t,
      (g.get u).fileKey ≠ (g.get t).fileKey ∧ dependency = ⟨(g.get u).fileKey, (g.get u).name⟩ := by
  unfold entry
  dsimp only
  split
  · next he =>
    rw [henum he]
    simp
  · simp only [imports, List.mem_eraseDups, List.mem_filter, List.mem_map, bne_iff_ne]
    constructor
    · rintro ⟨⟨u, hu, rfl⟩, hne⟩
      exact ⟨u, hu, hne, rfl⟩
    · rintro ⟨u, hu, hne, rfl⟩
      exact ⟨⟨u, hu, rfl⟩, hne⟩

/-- Where a file tells the names of what is needed from it, imports are unambiguous exactly if types
of one name are in one file. -/
theorem unambiguous_entry_iff (henum : (g.get t).isEnum = true → g.dependencies t = [])
    (hfile : ∀ u ∈ g.dependencies t, (g.get u).fileKey = (g.get t).fileKey →
      (g.get u).name = (g.get t).name) :
    Unambiguous (entry g t) ↔ OneFile g (t :: g.dependencies t) := by
  have hinj := List.nodup_map_iff_inj_on (f := Dependency.modules) (nodup_dependencies g t)
  constructor
  · rintro ⟨hdistinct, hother⟩
    -- what is called like the model is in its file, or it would be imported
    have hown : ∀ u ∈ g.dependencies t, (g.get u).name = (g.get t).name →
        (g.get u).fileKey = (g.get t).fileKey := by
      intro u hu hname
      by_contra hne
      refine hother (List.mem_map.2 ⟨_, (mem_dependencies henum).2 ⟨u, hu, hne, rfl⟩, ?_⟩)
      rw [entry_exportName]
      exact hname
    have hneeded : ∀ u ∈ g.dependencies t, ∀ v ∈ g.dependencies t,
        (g.get u).name = (g.get v).name → (g.get u).fileKey = (g.get v).fileKey := by
      intro u hu v hv hname
      by_cases hu' : (g.get u).fileKey = (g.get t).fileKey
      · rw [hu', hown v hv (hname.symm.trans (hfile u hu hu'))]
      by_cases hv' : (g.get v).fileKey = (g.get t).fileKey
      · rw [hv', hown u hu (hname.trans (hfile v hv hv'))]
      have heq := hinj.1 hdistinct _ ((mem_dependencies henum).2 ⟨u, hu, hu', rfl⟩) _
        ((mem_dependencies henum).2 ⟨v, hv, hv', rfl⟩) hname
      exact congrArg Dependency.id heq
    intro u hu v hv hname
    rcases List.mem_cons.1 hu with rfl | hu <;> rcases List.mem_cons.1 hv with rfl | hv
    · rfl
    · exact (hown v hv hname.symm).symm
    · exact hown u hu hname
    · exact hneeded u hu v hv hname
  · intro hone
    refine ⟨hinj.2 fun a ha b hb hname => ?_, fun hmem => ?_⟩
    · obtain ⟨u, hu, -, rfl⟩ := (mem_dependencies henum).1 ha
      obtain ⟨v, hv, -, rfl⟩ := (mem_dependencies henum).1 hb
      have hname : (g.get u).name = (g.get v).name := hname
      rw [hone u (List.mem_cons_of_mem t hu) v (List.mem_cons_of_mem t hv) hname, hname]
    · obtain ⟨dependency, hd, hname⟩ := List.mem_map.1 hmem
      obtain ⟨u, hu, hne, rfl⟩ := (mem_dependencies henum).1 hd
      rw [entry_exportName] at hname
      exact hne (hone u (List.mem_cons_of_mem t hu) t List.mem_cons_self hname)

/-- So it is for every type of a document. -/
theorem unambiguous_iff_of_rooted (hf : Faithful d r) (hg : r.graph.Ordered) (h : Rooted d r t)
    (hb : (r.graph.get t).isBuiltin = false) :
    Unambiguous (entry r.graph t) ↔ OneFile r.graph (t :: r.graph.dependencies t) := by
  refine unambiguous_entry_iff (fun he => ?_) fun u hu hkey => ?_
  · rw [List.eq_nil_iff_forall_not_mem]
    intro u hu
    obtain ⟨v, hv, -⟩ := Relation.TransGen.head'_iff.1 (TypeGraph.reaches_of_mem_dependencies hu).1
    rw [TypeGraph.Refers, h.references_of_isEnum hg he] at hv
    exact absurd hv List.not_mem_nil
  · obtain ⟨hreach, hcounts⟩ := TypeGraph.reaches_of_mem_dependencies hu
    exact (TypeInfo.eq_of_fileKey ((h.reaches hf hg hreach).separate hf hg hcounts.1)
      (h.separate hf hg hb) hkey).2

end Model

namespace Generation

open Model Resolver

/-! ### Imports of the client -/

variable {root : Json} {d : Document} {options : Client.Options} {p : Projection} {base : String}
  {o : ModelOptions} {models : List ModelEntry} {files : ModelFiles} {pending : List PendingFile}

/-- The client imports every name that some file exports, once from each file. -/
theorem modules_clientDependencies [Code.Templates] (hhook : o.hook = none)
    (h : stageModels base o models = .ok (files, pending)) :
    (clientDependencies files).map ClientDependency.modules =
      ((models.map fun m => (m.key, m.exportName)).eraseDups).map Prod.snd := by
  obtain ⟨hmodels, -⟩ := staged_models hhook h
  rw [clientDependencies, hmodels, List.map_filterMap, ← List.filterMap_eq_map (f := Prod.snd)]
  refine List.filterMap_congr fun pair hpair => ?_
  obtain ⟨m, hm, rfl⟩ := List.mem_map.1 (List.mem_eraseDups.1 hpair)
  obtain ⟨path, hget⟩ := path_of_model hhook h hm
  dsimp only
  rw [hget]
  rfl

/-- What the client imports is unambiguous exactly if models of one name are in one file. -/
theorem nodup_modules_iff [Code.Templates] {r : ResolvedTypes} (hhook : o.hook = none)
    (h : stageModels base o (Model.project r) = .ok (files, pending)) :
    ((clientDependencies files).map ClientDependency.modules).Nodup ↔
      OneFile r.graph (modelTypes r) := by
  rw [modules_clientDependencies hhook h, List.nodup_map_iff_inj_on (nodup_eraseDups _)]
  simp only [List.mem_eraseDups, List.forall_mem_map, OneFile, mem_project, Prod.mk.injEq,
    forall_exists_index, and_imp, forall_apply_eq_imp_iff₂, entry_key, entry_exportName]
  exact ⟨fun hpairs u hu v hv hname => (hpairs u hu v hv hname).1,
    fun hone u hu v hv hname => ⟨hone u hu v hv hname, hname⟩⟩

/-- A model comes of a type of the document that is not built in. -/
theorem rooted_of_mem_modelTypes [MediaType.Reading] {r : Resolver} (hr : Finished d r) {t : TypeId}
    (ht : t ∈ modelTypes (Projection.typesOf r)) :
    Rooted d r t ∧ (r.graph.get t).isBuiltin = false := by
  obtain ⟨⟨name, hregistered⟩, hmodel⟩ := (mem_modelTypes hr.distinct).1 ht
  obtain ⟨root, -, htyped⟩ := hr.faithful.declared hregistered
  simp only [TypeInfo.isModel, Bool.and_eq_true, Bool.not_eq_true'] at hmodel
  exact ⟨hr.faithful.rooted htyped, hmodel.1.1⟩

/-- **The names that a model imports are all different, and different from its own, exactly if of it
and the models that it needs no two have one name and different files. Those that the client imports
are all different exactly if this holds of all models.** -/
theorem imports_unambiguous_iff [MediaType.Reading] [Text.Transliteration] [Code.Templates]
    (h : Document.ofJson root = .ok d)
    (hp : Projection.build d options = .ok p) (hhook : o.hook = none)
    (hfiles : stageModels base o p.models = .ok (files, pending)) :
    (∀ m ∈ p.models, ∃ t ∈ modelTypes p.types, entry p.types.graph t = m ∧
      (Unambiguous m ↔ OneFile p.types.graph (t :: p.types.graph.dependencies t))) ∧
    (((clientDependencies files).map ClientDependency.modules).Nodup ↔
      OneFile p.types.graph (modelTypes p.types)) := by
  obtain ⟨r, hr, htypes, hmodels⟩ := finished_of_build h hp
  rw [hmodels] at hfiles ⊢
  rw [htypes]
  refine ⟨fun m hm => ?_, nodup_modules_iff hhook hfiles⟩
  obtain ⟨t, ht, rfl⟩ := mem_project.1 hm
  obtain ⟨hrooted, hbuiltin⟩ := rooted_of_mem_modelTypes hr ht
  exact ⟨t, ht, rfl, unambiguous_iff_of_rooted hr.faithful hr.types.graph hrooted hbuiltin⟩

/-- Pets of cats and of dogs, and an owner of both. -/
def namesakes : Json := Projection.documentWith [
  ("Cat.Pet", [("type", .str "object"), ("properties", .obj [
    ("friend", .obj [("$ref", .str "#/components/schemas/Dog.Pet")])])]),
  ("Dog.Pet", [("type", .str "object")]),
  ("Owner", [("type", .str "object"), ("properties", .obj [
    ("cat", .obj [("$ref", .str "#/components/schemas/Cat.Pet")]),
    ("dog", .obj [("$ref", .str "#/components/schemas/Dog.Pet")])])])]

theorem run_namesakes :
    ∃ d p files pending, Document.ofJson namesakes = .ok d ∧ Projection.build d {} = .ok p ∧
      stageModels "gen" {} p.models = .ok (files, pending) ∧
      (p.models.map fun m => (m.exportName, m.dependencies.map Dependency.modules)) =
        [("Pet", []), ("Pet", ["Pet"]), ("Owner", ["Pet", "Pet"])] ∧
      (clientDependencies files).map ClientDependency.modules = ["Pet", "Pet", "Owner"] := by
  have hrun : (Document.ofJson namesakes >>= fun d => (fun p =>
      (p.models.map fun m => (m.exportName, m.dependencies.map Dependency.modules),
        (stageModels "gen" {} p.models).toOption.map fun staged =>
          (clientDependencies staged.1).map ClientDependency.modules)) <$>
      Projection.build d {}) = .ok
        ([("Pet", []), ("Pet", ["Pet"]), ("Owner", ["Pet", "Pet"])],
          some ["Pet", "Pet", "Owner"]) := by
    decide +kernel
  obtain ⟨d, p, hd, hp, heq⟩ := Projection.exists_of_run hrun
  obtain ⟨hmodels, hclient⟩ := Prod.mk.inj heq
  obtain ⟨⟨files, pending⟩, hstaged, hnames⟩ := Option.map_eq_some_iff.1 hclient
  cases hfiles : stageModels "gen" {} p.models with
  | error e =>
    rw [hfiles] at hstaged
    cases hstaged
  | ok staged =>
    rw [hfiles] at hstaged
    cases hstaged
    exact ⟨d, p, files, pending, hd, hp, hfiles, hmodels, hnames⟩

/-- The owner imports two types of one name, and no file has both. -/
theorem imports_unambiguous_iff_namesakes :
    ∃ d p files pending, Document.ofJson namesakes = .ok d ∧ Projection.build d {} = .ok p ∧
      stageModels "gen" {} p.models = .ok (files, pending) ∧
      (∃ m ∈ p.models, m.exportName = "Owner" ∧ ¬ Unambiguous m ∧
        ∃ t, entry p.types.graph t = m ∧
          ¬ OneFile p.types.graph (t :: p.types.graph.dependencies t)) ∧
      ¬ OneFile p.types.graph (modelTypes p.types) := by
  obtain ⟨d, p, files, pending, hd, hp, hfiles, hmodels, hclient⟩ := run_namesakes
  obtain ⟨hentries, himports⟩ := imports_unambiguous_iff hd hp rfl hfiles
  have howner : ("Owner", ["Pet", "Pet"]) ∈
      p.models.map fun m => (m.exportName, m.dependencies.map Dependency.modules) := by
    rw [hmodels]
    decide
  obtain ⟨m, hm, heq⟩ := List.mem_map.1 howner
  obtain ⟨hname, hmodules⟩ := Prod.mk.inj heq
  have hambiguous : ¬ Unambiguous m := fun h => by
    have hdistinct := h.distinct
    rw [hmodules] at hdistinct
    exact absurd hdistinct (by decide)
  obtain ⟨t, -, hentry, hiff⟩ := hentries m hm
  refine ⟨d, p, files, pending, hd, hp, hfiles,
    ⟨m, hm, hname, hambiguous, t, hentry, mt hiff.2 hambiguous⟩, fun hone => ?_⟩
  have hdistinct := himports.2 hone
  rw [hclient] at hdistinct
  exact absurd hdistinct (by decide)

/-- A pet of a cat imports the pets of dogs under its own name. -/
theorem ambiguous_namesakes :
    ¬ ∀ (root : Json) (d : Document) (options : Client.Options) (p : Projection) (base : String)
      (o : ModelOptions) (files : ModelFiles) (pending : List PendingFile),
      Document.ofJson root = .ok d → Projection.build d options = .ok p → o.hook = none →
        stageModels base o p.models = .ok (files, pending) →
          (∀ m ∈ p.models, Unambiguous m) ∧
            ((clientDependencies files).map ClientDependency.modules).Nodup := by
  intro hclaim
  obtain ⟨d, p, files, pending, hd, hp, hfiles, -, hclient⟩ := run_namesakes
  have hdistinct := (hclaim namesakes d {} p "gen" {} files pending hd hp rfl hfiles).2
  rw [hclient] at hdistinct
  exact absurd hdistinct (by decide)

/-! ### Documents without scopes -/

/-- Where no schema's name has a dot, files are called like the types in them. -/
theorem oneFile_of_dotless [MediaType.Reading] {r : Resolver} (hr : Finished d r)
    (hnames : ∀ name ∈ Assoc.keys d.schemas, '.' ∉ name.toList) {ts : List TypeId}
    (hts : ∀ t ∈ ts, Rooted d r t ∧ (r.graph.get t).isBuiltin = false) : OneFile r.graph ts := by
  have hkey : ∀ t ∈ ts, (r.graph.get t).fileKey = (r.graph.get t).name := by
    intro t ht
    obtain ⟨hrooted, hbuiltin⟩ := hts t ht
    rw [TypeInfo.fileKey, if_pos (hrooted.scope_eq hr.faithful hr.types.graph hbuiltin hnames)]
  intro u hu v hv hname
  rw [hkey u hu, hkey v hv, hname]

/-- Where no schema's name has a dot, all imports are unambiguous. -/
theorem unambiguous_of_dotless [MediaType.Reading] [Text.Transliteration] [Code.Templates]
    (h : Document.ofJson root = .ok d)
    (hp : Projection.build d options = .ok p) (hhook : o.hook = none)
    (hfiles : stageModels base o p.models = .ok (files, pending))
    (hnames : ∀ name ∈ Assoc.keys d.schemas, '.' ∉ name.toList) :
    (∀ m ∈ p.models, Unambiguous m) ∧
      ((clientDependencies files).map ClientDependency.modules).Nodup := by
  obtain ⟨r, hr, htypes, hmodels⟩ := finished_of_build h hp
  rw [hmodels] at hfiles ⊢
  refine ⟨fun m hm => ?_, (nodup_modules_iff hhook hfiles).2
    (oneFile_of_dotless hr hnames fun t ht => rooted_of_mem_modelTypes hr ht)⟩
  obtain ⟨t, ht, rfl⟩ := mem_project.1 hm
  obtain ⟨hrooted, hbuiltin⟩ := rooted_of_mem_modelTypes hr ht
  refine (unambiguous_iff_of_rooted hr.faithful hr.types.graph hrooted hbuiltin).2
    (oneFile_of_dotless hr hnames fun u hu => ?_)
  rcases List.mem_cons.1 hu with rfl | hu
  · exact ⟨hrooted, hbuiltin⟩
  · obtain ⟨hreach, hcounts⟩ := TypeGraph.reaches_of_mem_dependencies hu
    exact ⟨hrooted.reaches hr.faithful hr.types.graph hreach, hcounts.1⟩

end Generation

end TypedClient
