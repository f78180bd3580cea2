import TypedClient.Client.MediaTypeGrammar
import TypedClient.Proofs.Resolution.Origins
import TypedClient.Text.AsciiTable

/-! What the models of a projection refer to: the imports, each a file with the name that it
exports, and the type that a model extends. A type that is a model has its own entry. An instance of
a generic definition has none; what is written for it is meant for the definition, but its file key
and its name can be others. -/

namespace TypedClient

namespace Model

variable {d : Document} {r : Resolver} {u : TypeId}

open Resolver

/-! ### Types that have entries -/

/-- A type of a node that is a model is registered, so it has an entry. -/
theorem entry_mem_of_isModel [MediaType.Reading] (hr : Finished d r) (hu : Rooted d r u)
    (hmodel : (r.graph.get u).isModel = true) :
    entry r.graph u ∈ project (Projection.typesOf r) := by
  obtain ⟨name, _, hregistered, -⟩ := ownName_of_isModel hr.faithful hr.types.graph hu hmodel
  exact mem_project.2 ⟨u, (mem_modelTypes hr.distinct).2 ⟨⟨name, hregistered⟩, hmodel⟩, rfl⟩

/-- An entry is that of a registered type. -/
theorem rooted_of_mem_project [MediaType.Reading] {m : ModelEntry} (hr : Finished d r)
    (hm : m ∈ project (Projection.typesOf r)) :
    ∃ t, Rooted d r t ∧ t ∈ modelTypes (Projection.typesOf r) ∧ entry r.graph t = m := by
  obtain ⟨t, ht, rfl⟩ := mem_project.1 hm
  obtain ⟨⟨name, hregistered⟩, -⟩ := (mem_modelTypes hr.distinct).1 ht
  obtain ⟨root, -, htyped⟩ := hr.faithful.declared hregistered
  exact ⟨t, hr.faithful.rooted htyped, ht, rfl⟩

end Model

namespace Projection

open Model Resolver

variable {d : Document} {p : Projection} {options : Client.Options} {root : Json} {m : ModelEntry}

/-! ### Imports -/

/-- Some model is in the file of the dependency under the name that is imported. -/
def Provides (models : List ModelEntry) (dependency : Dependency) : Prop :=
  ∃ e ∈ models, e.key = dependency.id ∧ e.exportName = dependency.modules

instance (models : List ModelEntry) (dependency : Dependency) :
    Decidable (Provides models dependency) :=
  inferInstanceAs (Decidable (∃ e ∈ models, _))

/-- The type is an instance of the generic definition. -/
structure IsInstance (g : TypeGraph) (u v : TypeId) : Prop where
  generic : (g.get u).isGeneric = true
  instance' : (g.get u).isGenericDefinition = false
  definition : (g.get u).genericDefinition = some v

/-- No model stands for an instance: its definition is no model, or it was written in place and left
out the scope of the definition, or it was declared under another name. -/
structure Strays (p : ResolvedTypes) (u v : TypeId) : Prop extends IsInstance p.graph u v where
  apart : (p.graph.get v).isModel = false ∨
    ((p.graph.get u).scope = "" ∧ (p.graph.get u).name = (p.graph.get v).name ∧
      (p.graph.get v).scope ≠ "") ∨
    (Assoc.get? p.registry (p.graph.get u).fullName = some u ∧
      ((p.graph.get u).fileKey ≠ (p.graph.get v).fileKey ∨
        (p.graph.get u).name ≠ (p.graph.get v).name))

/-- What a model imports is generated, but for instances of generic definitions that no model stands
for. -/
theorem provides_or_strays [MediaType.Reading] [Text.Transliteration]
    (h : Document.ofJson root = .ok d) (hp : build d options = .ok p)
    (hm : m ∈ p.models) {dependency : Dependency} (hneeded : dependency ∈ m.dependencies) :
    Provides p.models dependency ∨
      ∃ u v, dependency = ⟨(p.types.graph.get u).fileKey, (p.types.graph.get u).name⟩ ∧
        Strays p.types u v := by
  obtain ⟨r, hr, htypes, hmodels⟩ := finished_of_build h hp
  rw [hmodels] at hm ⊢
  rw [htypes]
  have hordered := hr.types.graph
  have hprovides : ∀ w, Rooted d r w → (r.graph.get w).isModel = true →
      Provides (project (typesOf r)) ⟨(r.graph.get w).fileKey, (r.graph.get w).name⟩ :=
    fun w hw hmodel => ⟨_, entry_mem_of_isModel hr hw hmodel, entry_key _ _, entry_exportName _ _⟩
  obtain ⟨t, ht, -, rfl⟩ := rooted_of_mem_project hr hm
  obtain ⟨u, hu, rfl⟩ := needed_of_mem_dependencies hneeded
  obtain ⟨hreach, hcounts⟩ := TypeGraph.reaches_of_mem_dependencies hu
  have hrooted := ht.reaches hr.faithful hordered hreach
  rcases model_or_instance hr.faithful hordered hrooted hcounts with
    ⟨-, hmodel⟩ | ⟨v, hv, -, hgeneric, hinstance, hdefinition, hnamed⟩
  · exact .inl (hprovides u hrooted hmodel)
  by_cases hmodel : (r.graph.get v).isModel = true
  · by_cases hsame : (r.graph.get u).fileKey = (r.graph.get v).fileKey ∧
      (r.graph.get u).name = (r.graph.get v).name
    · rw [hsame.1, hsame.2]
      exact .inl (hprovides v hv hmodel)
    · refine .inr ⟨u, v, rfl, ⟨hgeneric, hinstance, hdefinition⟩, .inr ?_⟩
      rcases hnamed with ⟨name, _, hregistered, -, -, -, hfull⟩ | ⟨hscope, hname⟩
      · refine .inr ⟨?_, ?_⟩
        · show Assoc.get? r.registry (r.graph.get u).fullName = some u
          rw [hfull]
          exact hregistered
        · exact not_and_or.1 hsame
      · refine .inl ⟨hscope, hname, fun hunscoped => hsame ⟨?_, hname⟩⟩
        have hunscoped : (r.graph.get v).scope = "" := hunscoped
        rw [TypeInfo.fileKey, TypeInfo.fileKey, if_pos hscope, if_pos hunscoped, hname]
  · rw [Bool.not_eq_true] at hmodel
    exact .inr ⟨u, v, rfl, ⟨hgeneric, hinstance, hdefinition⟩, .inl hmodel⟩

/-- A run on one document, and what it is about. -/
theorem exists_of_run [MediaType.Reading] [Text.Transliteration] {α : Type} {f : Projection → α}
    {a : α}
    (h : (Document.ofJson root >>= fun d => f <$> build d options) = .ok a) :
    ∃ d p, Document.ofJson root = .ok d ∧ build d options = .ok p ∧ f p = a := by
  obtain ⟨d, hd, h⟩ := except_bind_eq_ok.1 h
  obtain ⟨p, hp, hf⟩ := except_map_eq_ok.1 h
  exact ⟨d, p, hd, hp, hf⟩

/-- An owner with a page of pets, where the definition of pages is in a scope. -/
def pageInPlace : Json := .obj [("openapi", .str "3.0.0"), ("components", .obj [("schemas", .obj [
  ("Shop.Page", .obj [("type", .str "object"), ("x-isGenericType", .bool true),
    ("x-isGenericTypeDefinition", .bool true)]),
  ("Owner", .obj [("type", .str "object"), ("properties", .obj [
    ("pets", .obj [("type", .str "object"), ("x-isGenericType", .bool true),
      ("x-genericTypeDefinition", .obj [("$ref", .str "#/components/schemas/Shop.Page")])])])])])])]

/-- The owner imports a page without the scope. -/
theorem import_of_pageInPlace :
    ¬ ∀ (root : Json) (d : Document) (options : Client.Options) (p : Projection),
      Document.ofJson root = .ok d → build d options = .ok p →
        ∀ m ∈ p.models, ∀ dependency ∈ m.dependencies, Provides p.models dependency := by
  intro hclaim
  have hrun : (Document.ofJson pageInPlace >>= fun d => (fun p =>
      decide (∀ m ∈ p.models, ∀ dependency ∈ m.dependencies, Provides p.models dependency)) <$>
        build d {}) = .ok false := by decide +kernel
  obtain ⟨d, p, hd, hp, hfails⟩ := exists_of_run hrun
  exact of_decide_eq_false hfails (hclaim _ d {} p hd hp)

theorem provides_or_strays_page :
    ∃ d p, Document.ofJson pageInPlace = .ok d ∧ build d {} = .ok p ∧
      (∃ m ∈ p.models, ⟨"Page", "Page"⟩ ∈ m.dependencies) ∧
      (Provides p.models ⟨"Page", "Page"⟩ ∨
        ∃ u v, Dependency.mk "Page" "Page" =
          ⟨(p.types.graph.get u).fileKey, (p.types.graph.get u).name⟩ ∧ Strays p.types u v) := by
  have hrun : (Document.ofJson pageInPlace >>= fun d => (fun p =>
      decide (∃ m ∈ p.models, ⟨"Page", "Page"⟩ ∈ m.dependencies)) <$> build d {}) = .ok true := by
    decide +kernel
  obtain ⟨d, p, hd, hp, hholds⟩ := exists_of_run hrun
  obtain ⟨m, hm, hneeded⟩ := of_decide_eq_true hholds
  exact ⟨d, p, hd, hp, ⟨m, hm, hneeded⟩, provides_or_strays hd hp hm hneeded⟩

/-! ### Bases -/

/-- What the model of the type is declared as. -/
def kind (t : TypeInfo) : Definition :=
  if t.isEnum then .enum else if t.isInterface = some false then .class else .interface

theorem entry_definition (g : TypeGraph) (u : TypeId) :
    (entry g u).definition = kind (g.get u) := by
  unfold entry kind
  dsimp only
  split <;> rfl

theorem entry_name (g : TypeGraph) (u : TypeId) : (entry g u).name = g.spell u := by
  unfold entry
  dsimp only
  split <;> rfl

/-- A model extends the base of its type. -/
theorem entry_extends {g : TypeGraph} {t : TypeId} {text : String}
    (h : (entry g t).extends = some text) :
    ∃ b, (g.get t).base = some b ∧ g.spell b = text := by
  unfold entry at h
  dsimp only at h
  split at h
  · cases h
  · exact Option.map_eq_some_iff.1 h

/-- The entry is the one of the type: it is in the file of the type under its name, and a class, an
interface or an enumeration as the type alone says. -/
structure Shows (p : Projection) (u : TypeId) (e : ModelEntry) : Prop where
  mem : e ∈ p.models
  key : e.key = (p.types.graph.get u).fileKey
  exportName : e.exportName = (p.types.graph.get u).name
  name : e.name = p.types.graph.spell u
  definition : e.definition = kind (p.types.graph.get u)

theorem shows_of_mem {u : TypeId} (h : entry p.types.graph u ∈ p.models) :
    Shows p u (entry p.types.graph u) :=
  ⟨h, entry_key _ _, entry_exportName _ _, entry_name _ _, entry_definition _ _⟩

/-- A model extends the base of its type, whatever that is. A base that is neither built in nor a
parameter has its own model, or is an instance; the definition of an instance has its own model
again, unless it is a parameter or an instance itself. -/
theorem base_of_model [MediaType.Reading] [Text.Transliteration] (h : Document.ofJson root = .ok d)
    (hp : build d options = .ok p)
    (hm : m ∈ p.models) {text : String} (he : m.extends = some text) :
    ∃ t b, Shows p t m ∧ (p.types.graph.get t).base = some b ∧ p.types.graph.spell b = text ∧
      ((p.types.graph.get b).isBuiltin = true ∨ (p.types.graph.get b).isGenericParameter = true ∨
        (∃ e, Shows p b e) ∨
        ∃ v, IsInstance p.types.graph b v ∧ (p.types.graph.get v).isBuiltin = false ∧
          ((p.types.graph.get v).isGenericParameter = true ∨ (∃ e, Shows p v e) ∨
            ∃ w, IsInstance p.types.graph v w)) := by
  obtain ⟨r, hr, htypes, hmodels⟩ := finished_of_build h hp
  have hgraph : p.types.graph = r.graph := congrArg ResolvedTypes.graph htypes
  rw [hmodels] at hm
  obtain ⟨t, ht, -, rfl⟩ := rooted_of_mem_project hr hm
  obtain ⟨b, hbase, hspell⟩ := entry_extends he
  have hb : Rooted d r b :=
    ht.refers hr.faithful hr.types.graph (by simp [TypeGraph.Refers, TypeInfo.references, hbase])
  -- a type that counts has its own model, or is an instance of a definition
  have hcases : ∀ u, Rooted d r u → r.graph.Counts u → (∃ e, Shows p u e) ∨
      ∃ v, Rooted d r v ∧ IsInstance r.graph u v ∧ (r.graph.get v).isBuiltin = false := by
    intro u hu hcounts
    rcases model_or_instance hr.faithful hr.types.graph hu hcounts with
      ⟨-, hmodel⟩ | ⟨v, hv, hbuiltin, hgeneric, hinstance, hdefinition, -⟩
    · refine .inl ⟨_, shows_of_mem ?_⟩
      rw [hgraph, hmodels]
      exact entry_mem_of_isModel hr hu hmodel
    · exact .inr ⟨v, hv, ⟨hgeneric, hinstance, hdefinition⟩, hbuiltin⟩
  refine ⟨t, b, ?_, by rwa [hgraph], by rwa [hgraph], ?_⟩
  · rw [← hgraph] at hm ⊢
    exact shows_of_mem (hmodels ▸ hm)
  · rw [hgraph]
    by_cases hbuiltin : (r.graph.get b).isBuiltin = true
    · exact .inl hbuiltin
    by_cases hparameter : (r.graph.get b).isGenericParameter = true
    · exact .inr (.inl hparameter)
    rw [Bool.not_eq_true] at hbuiltin hparameter
    rcases hcases b hb ⟨hbuiltin, hparameter⟩ with hshown | ⟨v, hv, hinstance, hv'⟩
    · exact .inr (.inr (.inl hshown))
    · refine .inr (.inr (.inr ⟨v, hinstance, hv', ?_⟩))
      by_cases hparameter : (r.graph.get v).isGenericParameter = true
      · exact .inl hparameter
      rw [Bool.not_eq_true] at hparameter
      rcases hcases v hv ⟨hv', hparameter⟩ with hshown | ⟨w, -, hinstance, -⟩
      · exact .inr (.inl hshown)
      · exact .inr (.inr ⟨w, hinstance⟩)

/-- The base of a model, or the definition of which the base is an instance, has its own model. -/
def BasesShown (p : Projection) : Prop :=
  ∀ m ∈ p.models, ∀ text, m.extends = some text →
    ∃ t b owner e, Shows p t m ∧ (p.types.graph.get t).base = some b ∧
      (owner = b ∨ (p.types.graph.get b).genericDefinition = some owner) ∧ Shows p owner e

/-- A model `m` extends one `e` of its own. -/
def Bases (p : Projection) (m e : ModelEntry) : Prop :=
  ∃ t < p.types.graph.size, ∃ b < p.types.graph.size,
    Shows p t m ∧ (p.types.graph.get t).base = some b ∧ Shows p b e

instance (p : Projection) (u : TypeId) (e : ModelEntry) : Decidable (Shows p u e) :=
  decidable_of_iff (e ∈ p.models ∧ e.key = (p.types.graph.get u).fileKey ∧
      e.exportName = (p.types.graph.get u).name ∧ e.name = p.types.graph.spell u ∧
      e.definition = kind (p.types.graph.get u))
    ⟨fun ⟨h₁, h₂, h₃, h₄, h₅⟩ => ⟨h₁, h₂, h₃, h₄, h₅⟩, fun ⟨h₁, h₂, h₃, h₄, h₅⟩ =>
      ⟨h₁, h₂, h₃, h₄, h₅⟩⟩

instance (p : Projection) (m e : ModelEntry) : Decidable (Bases p m e) :=
  inferInstanceAs (Decidable (∃ t < _, ∃ b < _, _))

/-- A label that extends a text, paint that extends a color of an enumeration, and a circle, which
is a class, that extends a shape, which is an interface. -/
def unusualBases : Json := .obj [("openapi", .str "3.0.0"), ("components", .obj [("schemas", .obj [
  ("Label", .obj [("type", .str "object"), ("allOf", .arr [.obj [("type", .str "string")]])]),
  ("Color", .obj [("type", .str "string"), ("enum", .arr [.str "red"])]),
  ("Paint", .obj [("type", .str "object"),
    ("allOf", .arr [.obj [("$ref", .str "#/components/schemas/Color")]])]),
  ("Shape", .obj [("type", .str "object")]),
  ("Circle", .obj [("type", .str "object"), ("x-isInterface", .bool false),
    ("allOf", .arr [.obj [("$ref", .str "#/components/schemas/Shape")]])])])])]

/-- A base need not have a model; it can be an enumeration; and a class can have an interface as its
base. -/
theorem bases_of_unusualBases :
    (¬ ∀ (root : Json) (d : Document) (options : Client.Options) (p : Projection),
      Document.ofJson root = .ok d → build d options = .ok p → BasesShown p) ∧
    (¬ ∀ (root : Json) (d : Document) (options : Client.Options) (p : Projection),
      Document.ofJson root = .ok d → build d options = .ok p →
        ∀ m e, Bases p m e → e.definition ≠ .enum) ∧
    ¬ ∀ (root : Json) (d : Document) (options : Client.Options) (p : Projection),
      Document.ofJson root = .ok d → build d options = .ok p →
        ∀ m e, Bases p m e → m.definition = .class → e.definition = .class := by
  have hrun : (Document.ofJson unusualBases >>= fun d => (fun p => decide (
      ((∃ m ∈ p.models, m.exportName = "Label" ∧ m.extends = some "string") ∧
        ∀ t < p.types.graph.size, (p.types.graph.get t).name = "Label" →
          ∀ b ∈ (p.types.graph.get t).base.toList,
            (p.types.graph.get b).genericDefinition = none ∧
            ∀ e ∈ p.models, e.exportName ≠ (p.types.graph.get b).name) ∧
      (∃ m ∈ p.models, ∃ e ∈ p.models, Bases p m e ∧ e.definition = .enum) ∧
      ∃ m ∈ p.models, ∃ e ∈ p.models, Bases p m e ∧ m.definition = .class ∧
        e.definition = .interface)) <$> build d {}) = .ok true := by decide +kernel
  obtain ⟨d, p, hd, hp, hholds⟩ := exists_of_run hrun
  obtain ⟨⟨⟨label, hlabel, hname, hextends⟩, hbases⟩, ⟨paint, -, color, -, hpaint, hcolor⟩,
    circle, -, shape, -, hcircle, hclass, hshape⟩ := of_decide_eq_true hholds
  refine ⟨fun hclaim => ?_, fun hclaim => hclaim _ d {} p hd hp paint color hpaint hcolor,
    fun hclaim => ?_⟩
  · obtain ⟨t, b, owner, e, ht, hb, howner, he⟩ := hclaim _ d {} p hd hp label hlabel _ hextends
    have hbound : t < p.types.graph.size := by
      by_contra hno
      rw [TypeGraph.get, TypeGraph.get?, Array.getElem?_eq_none (Nat.le_of_not_lt hno)] at hb
      cases hb
    obtain ⟨hplain, hnone⟩ := hbases t hbound (ht.exportName.symm.trans hname) b (by simp [hb])
    rcases howner with rfl | howner
    · exact hnone e he.mem he.exportName
    · rw [hplain] at howner
      cases howner
  · have hshown := hclaim _ d {} p hd hp circle shape hcircle hclass
    rw [hshape] at hshown
    cases hshown

theorem base_of_model_label :
    ∃ d p m, Document.ofJson unusualBases = .ok d ∧ build d {} = .ok p ∧ m ∈ p.models ∧
      m.extends = some "string" ∧ ∃ t b, Shows p t m ∧ (p.types.graph.get t).base = some b ∧
        p.types.graph.spell b = "string" := by
  have hrun : (Document.ofJson unusualBases >>= fun d => (fun p =>
      decide (∃ m ∈ p.models, m.extends = some "string")) <$> build d {}) = .ok true := by
    decide +kernel
  obtain ⟨d, p, hd, hp, hholds⟩ := exists_of_run hrun
  obtain ⟨m, hm, hextends⟩ := of_decide_eq_true hholds
  obtain ⟨t, b, ht, hb, hspell, -⟩ := base_of_model hd hp hm hextends
  exact ⟨d, p, m, hd, hp, hm, hextends, t, b, ht, hb, hspell⟩

end Projection

end TypedClient
