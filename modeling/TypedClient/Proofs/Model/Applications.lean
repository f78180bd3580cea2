import TypedClient.Client.MediaTypeGrammar
import TypedClient.Proofs.Model.References
import TypedClient.Text.AsciiTable

/-! What generic applications are written with. A type that is generic and has arguments is written
as a name applied to them. That name is the one of a generic definition: of the type itself, or of
the definition that it is an instance of, unless the instance is declared as a schema of its own and
has the name of that. A definition that says so and is no parameter has its own model. Records are
left out, which are written so as well. -/

namespace TypedClient

/-! ### Written applications -/

namespace TypeGraph

/-- The type is written as `head` applied to arguments. -/
def Application (g : TypeGraph) (u : TypeId) (head : String) : Prop :=
  (g.get u).isArray = false ∧
    ((g.get u).isGeneric && !(g.get u).genericArguments.isEmpty) = true ∧ (g.get u).name = head

instance (g : TypeGraph) (u : TypeId) (head : String) : Decidable (g.Application u head) :=
  inferInstanceAs (Decidable (_ ∧ _ ∧ _))

theorem Application.spell {g : TypeGraph} {u : TypeId} {head : String} (hg : g.Ordered)
    (hu : u < g.size) (h : g.Application u head) :
    g.spell u =
      head ++ "<" ++ String.intercalate "," ((g.get u).genericArguments.map g.spell) ++ ">" := by
  obtain ⟨harray, hgeneric, rfl⟩ := h
  have harguments : SpellsAll g (g.get u).genericArguments
      ((g.get u).genericArguments.map g.spell) := by
    refine spellsAll_of_forall fun v hv => (hg.spells_iff ?_ _).2 rfl
    exact Nat.lt_trans (hg.older (get?_eq_get hu) v (mem_references_of_argument hv)) hu
  exact ((hg.spells_iff hu _).1 (.generic (get?_eq_get hu) harray hgeneric harguments)).symm

end TypeGraph

/-! ### What is generic -/

namespace Resolver

variable {d : Document} {r : Resolver} {id : NodeId} {source : Source} {made : TypeInfo}
  {nameable : Bool} {u : TypeId}

/-- What is made generic is a definition, or an instance, or a record. -/
theorem generic_of_makes (hf : Faithful d r) (htold : d.source? id = some source)
    (h : source.Makes r made nameable) (hgeneric : made.isGeneric = true) :
    (made.isGenericDefinition = true ∧ made.name = "object") ∨
      (∃ v, Rooted d r v ∧ Applies r made v ∧ nameable = !made.isBuiltin) ∨
      (made.name = TypeGraph.recordName ∧ nameable = false) := by
  cases h with
  | openArray | array => cases hgeneric
  | enum =>
    obtain ⟨primitive, literals, rfl⟩ := Document.source?_enum htold
    cases hgeneric
  | @object plan base properties made _ hb hp hg =>
    obtain ⟨shape, hstart, hgenerics⟩ := Document.source?_object htold
    obtain ⟨hplain, hdefinition, happlied⟩ := Document.genericity?_cases hgenerics
    clear hgenerics
    generalize plan.generics = generics at hg hplain hdefinition happlied
    rw [hstart] at hg
    cases hg with
    | plain => exact absurd ((hplain rfl).symm.trans hgeneric) Bool.false_ne_true
    | definition ha => exact .inl ⟨hdefinition _ rfl, rfl⟩
    | applied hd ha =>
      obtain ⟨-, hinstance⟩ := happlied _ _ rfl
      exact .inr (.inl ⟨_, hf.rooted hd, ⟨hgeneric, hinstance, rfl, rfl, rfl, rfl⟩, rfl⟩)
    | keyed | openRecord | record => exact .inr (.inr ⟨rfl, rfl⟩)

/-- A generic type that is no record is a definition, which has its own name or that of built-in
objects, or an instance, which has its own name or that of its definition. -/
theorem definition_or_instance (hf : Faithful d r) (hg : r.graph.Ordered) (h : Rooted d r u)
    (hgeneric : (r.graph.get u).isGeneric = true)
    (hrecord : (r.graph.get u).name ≠ TypeGraph.recordName) :
    ((r.graph.get u).isGenericDefinition = true ∧
      ((r.graph.get u).isBuiltin = false ∨ (r.graph.get u).name = "object")) ∨
    ∃ v, Rooted d r v ∧ Projection.IsInstance r.graph u v ∧
      (r.graph.get u).isBuiltin = (r.graph.get v).isBuiltin ∧
      (((r.graph.get u).isBuiltin = false ∧ OwnName r u) ∨
        (r.graph.get u).name = (r.graph.get v).name) := by
  rcases h with rfl | ⟨name, hn⟩ | ⟨id, source, made, nameable, htyped, hmade⟩
  · rw [TypeGraph.get_of_get? hg.any.1] at hgeneric
    cases hgeneric
  · rw [TypeGraph.get_of_get? (hg.intrinsic hn)] at hgeneric
    cases hgeneric
  · obtain ⟨info, hinfo, htitles⟩ := hmade.titled
    have hget := TypeGraph.get_of_get? hinfo
    rw [hget] at hgeneric hrecord
    cases htitles with
    | @own name parsed _ hn hp =>
      have hown := ownName_of_rename hf htyped hn hp hget
      rcases generic_of_makes hf hmade.told hmade.makes hgeneric with
        ⟨hdefinition, -⟩ | ⟨v, hv, happlies, hbuiltin⟩ | ⟨-, hunnamed⟩
      · rw [hget]
        exact .inl ⟨hdefinition, .inl rfl⟩
      · have hfalse : made.isBuiltin = false := by simpa using hbuiltin.symm
        refine .inr ⟨v, hv, ?_, ?_, .inl ⟨by rw [hget]; rfl, hown⟩⟩
        · constructor <;> rw [hget]
          · exact happlies.generic
          · exact happlies.instance'
          · exact happlies.definition
        · rw [← happlies.isBuiltin, hfalse, hget]
          rfl
      · cases hunnamed
    | kept hid =>
      rcases generic_of_makes hf hmade.told hmade.makes hgeneric with
        ⟨hdefinition, hname⟩ | ⟨v, hv, happlies, -⟩ | ⟨hname, -⟩
      · rw [hget]
        exact .inl ⟨hdefinition, .inr hname⟩
      · refine .inr ⟨v, hv, ?_, ?_, .inr ?_⟩
        · constructor <;> rw [hget]
          · exact happlies.generic
          · exact happlies.instance'
          · exact happlies.definition
        · rw [hget, happlies.isBuiltin]
        · rw [hget, happlies.name]
      · exact absurd hname hrecord

end Resolver

/-! ### Definitions that are generated -/

namespace Projection

open Model Resolver

variable {d : Document} {p : Projection} {options : Client.Options} {root : Json}

/-- The type is a generic definition, and is `v`, or it is an instance of `v`. -/
def Belongs (g : TypeGraph) (u v : TypeId) : Prop :=
  (v = u ∧ (g.get u).isGenericDefinition = true) ∨ IsInstance g u v

/-- The type is registered under the name of a schema, and `head` is what that begins with. -/
def Declared (p : Projection) (u : TypeId) (head : String) : Prop :=
  ∃ name parsed, Assoc.get? p.types.registry name = some u ∧
    TypeName.parse name = .ok parsed ∧ parsed.name = head

/-- The type has a model of its own, which exports its name. -/
def Generated (p : Projection) (v : TypeId) : Prop :=
  entry p.types.graph v ∈ p.models ∧
    (entry p.types.graph v).exportName = (p.types.graph.get v).name

/-- What is not built in has a model of its own, unless it is a parameter or an instance. -/
theorem generated_of_not_builtin [MediaType.Reading] {r : Resolver} (hr : Finished d r)
    (htypes : p.types = typesOf r) (hmodels : p.models = project (typesOf r)) {v : TypeId}
    (hv : Rooted d r v) (hbuiltin : (r.graph.get v).isBuiltin = false) :
    (r.graph.get v).isGenericParameter = true ∨ (∃ w, IsInstance r.graph v w) ∨
      Generated p v := by
  by_cases hparameter : (r.graph.get v).isGenericParameter = true
  · exact .inl hparameter
  rw [Bool.not_eq_true] at hparameter
  rcases model_or_instance hr.faithful hr.types.graph hv ⟨hbuiltin, hparameter⟩ with
    ⟨-, hmodel⟩ | ⟨w, -, -, hgeneric, hinstance, hdefinition, -⟩
  · refine .inr (.inr ⟨?_, entry_exportName _ _⟩)
    rw [htypes, hmodels]
    exact entry_mem_of_isModel hr hv hmodel
  · exact .inr (.inl ⟨w, hgeneric, hinstance, hdefinition⟩)

/-- **A generic application that is no record is built in, or it belongs to a generic definition and
has its name, unless it is an instance that is declared under a name of its own. The definition has
a model of its own, unless it is a parameter or an instance itself.** -/
theorem application_defined [MediaType.Reading] [Text.Transliteration]
    (h : Document.ofJson root = .ok d) (hp : build d options = .ok p)
    {u : TypeId} (hu : u < p.types.graph.size) {head : String}
    (happlied : p.types.graph.Application u head) (hrecord : head ≠ TypeGraph.recordName) :
    ((p.types.graph.get u).isBuiltin = true ∧
      (((p.types.graph.get u).isGenericDefinition = true ∧ head = "object") ∨
        ∃ v, IsInstance p.types.graph u v ∧ (p.types.graph.get v).isBuiltin = true ∧
          (p.types.graph.get v).name = head)) ∨
    ∃ v, Belongs p.types.graph u v ∧ (p.types.graph.get v).isBuiltin = false ∧
      ((p.types.graph.get v).name = head ∨ (IsInstance p.types.graph u v ∧ Declared p u head)) ∧
      ((p.types.graph.get v).isGenericParameter = true ∨
        (∃ w, IsInstance p.types.graph v w) ∨ Generated p v) := by
  obtain ⟨r, hr, htypes, hmodels⟩ := finished_of_build h hp
  have hgraph : p.types.graph = r.graph := congrArg ResolvedTypes.graph htypes
  have hregistry : p.types.registry = r.registry := congrArg ResolvedTypes.registry htypes
  rw [hgraph] at hu happlied ⊢
  obtain ⟨-, hgeneric, rfl⟩ := happlied
  have hrooted := hr.faithful.covered hu
  rcases definition_or_instance hr.faithful hr.types.graph hrooted
    (Bool.and_eq_true_iff.1 hgeneric).1 hrecord with
    ⟨hdefinition, hname⟩ | ⟨v, hv, hinstance, hbuiltin, hname⟩
  · by_cases hbuiltin : (r.graph.get u).isBuiltin = true
    · exact .inl ⟨hbuiltin, .inl ⟨hdefinition, hname.resolve_left (by simp [hbuiltin])⟩⟩
    · rw [Bool.not_eq_true] at hbuiltin
      exact .inr ⟨u, .inl ⟨rfl, hdefinition⟩, hbuiltin, .inl rfl,
        generated_of_not_builtin hr htypes hmodels hrooted hbuiltin⟩
  · by_cases hv' : (r.graph.get v).isBuiltin = true
    · have hsame : (r.graph.get v).name = (r.graph.get u).name :=
        (hname.resolve_left (by simp [hbuiltin, hv'])).symm
      exact .inl ⟨hbuiltin.trans hv', .inr ⟨v, hinstance, hv', hsame⟩⟩
    · rw [Bool.not_eq_true] at hv'
      refine .inr ⟨v, .inr hinstance, hv', ?_,
        generated_of_not_builtin hr htypes hmodels hv hv'⟩
      rcases hname with ⟨-, name, parsed, hregistered, hparsed, hown, -⟩ | hname
      · exact .inr ⟨hinstance, name, parsed, by rwa [hregistry], hparsed, hown.symm⟩
      · exact .inl hname.symm

/-- Some model is the one of a type that says it is a generic definition, and exports this name. -/
def Defines (p : Projection) (head : String) : Prop :=
  ∃ v, (p.types.graph.get v).isGenericDefinition = true ∧ entry p.types.graph v ∈ p.models ∧
    (entry p.types.graph v).exportName = head

instance (p : Projection) (head : String) : Decidable (Defines p head) :=
  decidable_of_iff (∃ v < p.types.graph.size,
      (p.types.graph.get v).isGenericDefinition = true ∧ entry p.types.graph v ∈ p.models ∧
        (entry p.types.graph v).exportName = head) <| by
    constructor
    · rintro ⟨v, -, hv⟩
      exact ⟨v, hv⟩
    · rintro ⟨v, hdefinition, hv⟩
      refine ⟨v, ?_, hdefinition, hv⟩
      by_contra hno
      rw [TypeGraph.get_of_size_le (Nat.le_of_not_lt hno)] at hdefinition
      cases hdefinition

/-- Pages of pets declared under a name of their own, a box whose definition is a text, trays whose
definition does not say that it is one, and a definition that is a parameter. -/
def oddFamilies : Json := .obj [("openapi", .str "3.0.0"), ("components", .obj [("schemas", .obj [
  ("Pet", .obj [("type", .str "object")]),
  ("Page", .obj [("type", .str "object"), ("x-isGenericType", .bool true),
    ("x-isGenericTypeDefinition", .bool true),
    ("x-genericArguments", .arr [.obj [("$ref", .str "#/components/schemas/Pet")]])]),
  ("PetPage", .obj [("type", .str "object"), ("x-isGenericType", .bool true),
    ("x-genericTypeDefinition", .obj [("$ref", .str "#/components/schemas/Page")]),
    ("x-genericArguments", .arr [.obj [("$ref", .str "#/components/schemas/Pet")]])]),
  ("Box", .obj [("type", .str "object"), ("x-isGenericType", .bool true),
    ("x-genericTypeDefinition", .obj [("type", .str "string")]),
    ("x-genericArguments", .arr [.obj [("type", .str "integer")]])]),
  ("Tray", .obj [("type", .str "object")]),
  ("Tray<Pet>", .obj [("type", .str "object"), ("x-isGenericType", .bool true),
    ("x-genericTypeDefinition", .obj [("$ref", .str "#/components/schemas/Tray")]),
    ("x-genericArguments", .arr [.obj [("$ref", .str "#/components/schemas/Pet")]])]),
  ("Slot", .obj [("type", .str "object"), ("x-isGenericParameter", .bool true),
    ("x-isGenericType", .bool true), ("x-isGenericTypeDefinition", .bool true),
    ("x-genericArguments", .arr [.obj [("$ref", .str "#/components/schemas/Pet")]])])])])]

/-- Each of them is written as an application of what no generated definition exports. -/
theorem undefined_heads_of_oddFamilies :
    ∃ d p, Document.ofJson oddFamilies = .ok d ∧ build d {} = .ok p ∧
      ∀ head ∈ ["PetPage", "string", "Tray", "Slot"],
        (∃ u < p.types.graph.size, p.types.graph.Application u head) ∧ ¬ Defines p head := by
  have hrun : (Document.ofJson oddFamilies >>= fun d => (fun p =>
      decide (∀ head ∈ ["PetPage", "string", "Tray", "Slot"],
        (∃ u < p.types.graph.size, p.types.graph.Application u head) ∧ ¬ Defines p head)) <$>
          build d {}) = .ok true := by decide +kernel
  obtain ⟨d, p, hd, hp, hholds⟩ := exists_of_run hrun
  exact ⟨d, p, hd, hp, of_decide_eq_true hholds⟩

theorem application_defined_petPage :
    ∃ d p u, Document.ofJson oddFamilies = .ok d ∧ build d {} = .ok p ∧
      u < p.types.graph.size ∧ p.types.graph.Application u "PetPage" ∧
      "PetPage" ≠ TypeGraph.recordName ∧ (p.types.graph.get u).isBuiltin = false ∧
      ∃ v, Belongs p.types.graph u v ∧ (p.types.graph.get v).isBuiltin = false ∧
        ((p.types.graph.get v).isGenericParameter = true ∨
          (∃ w, IsInstance p.types.graph v w) ∨ Generated p v) := by
  have hrun : (Document.ofJson oddFamilies >>= fun d => (fun p =>
      decide (∃ u < p.types.graph.size, p.types.graph.Application u "PetPage" ∧
        (p.types.graph.get u).isBuiltin = false)) <$> build d {}) = .ok true := by decide +kernel
  obtain ⟨d, p, hd, hp, hholds⟩ := exists_of_run hrun
  obtain ⟨u, hu, happlied, hbuiltin⟩ := of_decide_eq_true hholds
  have hrecord : "PetPage" ≠ TypeGraph.recordName := by decide
  refine ⟨d, p, u, hd, hp, hu, happlied, hrecord, hbuiltin, ?_⟩
  rcases application_defined hd hp hu happlied hrecord with ⟨htrue, -⟩ | ⟨v, hv, hv', -, hshown⟩
  · exact absurd (hbuiltin.symm.trans htrue) Bool.false_ne_true
  · exact ⟨v, hv, hv', hshown⟩

end Projection

end TypedClient
