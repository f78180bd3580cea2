import TypedClient.Proofs.Model.Imports
import TypedClient.Proofs.Resolution.Formed

/-! The models that an array needs. Below its element everything is followed, nested arrays and
arguments alike, so all models are found that are named where the element is written, beside one
with the full name of the array itself. The element is followed only if it is not built in, though.
Arrays are built in, and so are records, so an array of arrays needs no models at all. -/

namespace TypedClient

open Relation

namespace TypeGraph

open Resolver (Formed)

variable {g : TypeGraph} {a element u : TypeId}

/-- The type is written with the name of a model. -/
structure Mentions (g : TypeGraph) (id u : TypeId) : Prop where
  named : NamedIn g u id
  counts : g.Counts u

/-- What is named in an array is named in its element. -/
theorem namedIn_array_iff (ha : (g.get a).isArray = true)
    (he : (g.get a).element = some element) : NamedIn g u a ↔ NamedIn g u element := by
  refine ⟨fun h => ?_, .element ha he⟩
  cases h with
  | self hplain => exact absurd (hplain.symm.trans ha) Bool.false_ne_true
  | element _ he' h =>
    rw [he] at he'
    cases he'
    exact h
  | argument hplain => exact absurd (hplain.symm.trans ha) Bool.false_ne_true

/-- Where types look as resolution makes them, what is held by a type is named in it, unless that is
built in. -/
theorem namedIn_iff_holds (hformed : ∀ id, Formed (g.get id)) (hu : (g.get u).isBuiltin = false)
    {id : TypeId} : NamedIn g u id ↔ ReflTransGen g.Holds id u := by
  refine ⟨NamedIn.holds, fun hholds => ?_⟩
  -- from the inside out: the marks of each type on the way say that its part is written
  induction hholds using ReflTransGen.head_induction_on with
  | refl =>
    refine .self (Bool.eq_false_iff.2 fun ha => ?_)
    obtain ⟨_, heq⟩ := (hformed u).array ha
    rw [heq] at hu
    cases hu
  | @head id part hpart _ ih =>
    rcases List.mem_append.1 hpart with hpart | hpart
    · have hsome := List.ne_nil_of_mem hpart
      refine .argument (Bool.eq_false_iff.2 fun ha => ?_) ((hformed id).arguments hsome) hpart ih
      obtain ⟨_, heq⟩ := (hformed id).array ha
      rw [heq] at hsome
      exact hsome rfl
    · split at hpart
      · next ha => exact .element ha (Option.mem_toList.1 hpart) ih
      · exact absurd hpart List.not_mem_nil

/-- What counts of an array is its element, unless that is built in. -/
theorem involves_array_iff (hformed : Formed (g.get a)) (ha : (g.get a).isArray = true)
    (he : (g.get a).element = some element) :
    g.Involves a u ↔ (g.get element).isBuiltin = false ∧ ReflTransGen g.Holds element u := by
  have hroots : g.dependencyRoots (g.get a) =
      [element].filter fun e => !(g.get e).isBuiltin := by
    obtain ⟨other, heq⟩ := hformed.array ha
    have hsame : other = element := by
      rw [heq] at he
      exact Option.some.inj he
    rw [heq, hsame]
    simp [dependencyRoots, TypeInfo.builtin, TypeInfo.named]
  simp [Involves, hroots]

/-- The models that an array needs. -/
structure ArrayNeeds (g : TypeGraph) (a element : TypeId) : Prop where
  /-- They are named in the array, no two of them with one full name, none with its own. -/
  mentioned : ∀ u ∈ g.dependencies a, g.Mentions a u
  distinct : ((g.dependencies a).map fun u => (g.get u).fullName).Nodup
  other : ∀ u ∈ g.dependencies a, (g.get u).fullName ≠ (g.get a).fullName
  /-- There are none if the element is built in. -/
  skipped : (g.get element).isBuiltin = true → g.dependencies a = []
  /-- Otherwise all are there, but for those with the full name of the array. -/
  collected : (g.get element).isBuiltin = false → ∀ u, g.Mentions a u →
    (g.get u).fullName ≠ (g.get a).fullName →
      ∃ v ∈ g.dependencies a, (g.get v).fullName = (g.get u).fullName

theorem arrayNeeds (hg : g.Ordered) (hformed : ∀ id, Formed (g.get id)) (hsize : a < g.size)
    (ha : (g.get a).isArray = true) (he : (g.get a).element = some element) :
    ArrayNeeds g a element := by
  obtain ⟨hsound, hcomplete, hdistinct⟩ := hg.dependencies_told hsize
  have hinvolves : ∀ u, g.Involves a u ↔ _ := fun u => involves_array_iff (hformed a) ha he
  have hnamed : ∀ u, (g.get u).isBuiltin = false →
      (NamedIn g u a ↔ ReflTransGen g.Holds element u) := fun u hu =>
    (namedIn_array_iff ha he).trans (namedIn_iff_holds hformed hu)
  refine ⟨fun u hu => ?_, hdistinct, fun u hu => (hsound u hu).2.other, fun hbuiltin => ?_,
    fun hplain u hu hother => ?_⟩
  · obtain ⟨hroot, hwanted⟩ := hsound u hu
    exact ⟨(hnamed u hwanted.counts.1).2 ((hinvolves u).1 hroot).2, hwanted.counts⟩
  · refine List.eq_nil_iff_forall_not_mem.2 fun u hu => ?_
    have hplain := ((hinvolves u).1 (hsound u hu).1).1
    rw [hbuiltin] at hplain
    cases hplain
  · exact hcomplete u ((hinvolves u).2 ⟨hplain, (hnamed u hu.counts.1).1 hu.named⟩)
      ⟨hu.counts, hother⟩

/-- All models that are named in the array are among those that it needs. -/
def Covered (g : TypeGraph) (a : TypeId) : Prop :=
  ∀ u, g.Mentions a u → ∃ v ∈ g.dependencies a, (g.get v).fullName = (g.get u).fullName

theorem ArrayNeeds.covered_iff (h : ArrayNeeds g a element) :
    g.Covered a ↔ ∀ u, g.Mentions a u →
      (g.get element).isBuiltin = false ∧ (g.get u).fullName ≠ (g.get a).fullName := by
  constructor
  · intro hcovered u hu
    obtain ⟨v, hv, hname⟩ := hcovered u hu
    refine ⟨Bool.eq_false_iff.2 fun hbuiltin => ?_, hname ▸ h.other v hv⟩
    rw [h.skipped hbuiltin] at hv
    exact List.not_mem_nil hv
  · intro hall u hu
    exact h.collected (hall u hu).1 u hu (hall u hu).2

end TypeGraph

namespace Resolver

open TypeGraph

variable {d : Document} {root : Json} {requests : List Request} {a : TypeId}

/-- After any requests, an array needs the models that are named in it if its element is not built
in, and none if it is. So it needs all of them exactly where it names none or its element is not
built in, and none of them has its own full name; and an array of arrays needs the same models as
these do only where they need none. -/
theorem array_dependencies_exact (h : Document.ofJson root = .ok d)
    (hsize : a < (served d requests).graph.size)
    (ha : ((served d requests).graph.get a).isArray = true) :
    ∃ element, ((served d requests).graph.get a).element = some element ∧
      ArrayNeeds (served d requests).graph a element ∧
      ((served d requests).graph.Covered a ↔ ∀ u, (served d requests).graph.Mentions a u →
        ((served d requests).graph.get element).isBuiltin = false ∧
        ((served d requests).graph.get u).fullName ≠
          ((served d requests).graph.get a).fullName) ∧
      (((served d requests).graph.get element).isArray = true →
        ((served d requests).graph.dependencies a = (served d requests).graph.dependencies element ↔
          (served d requests).graph.dependencies element = [])) := by
  have hg := (served_all (Document.forest_of_ofJson h) requests).types.graph
  have hformed := (formedTypes_served d requests).get
  generalize (served d requests).graph = g at hsize ha hg hformed ⊢
  obtain ⟨element, heq⟩ := (hformed a).array ha
  have he : (g.get a).element = some element := by rw [heq]
  have hneeds := arrayNeeds hg hformed hsize ha he
  refine ⟨element, he, hneeds, hneeds.covered_iff, fun hnested => ?_⟩
  obtain ⟨_, hinner⟩ := (hformed element).array hnested
  rw [hneeds.skipped (by rw [hinner]; rfl), eq_comm]

/-- Bars in a row and in rows. -/
def barRows : Json := .obj [("openapi", .str "3.0.0"), ("components", .obj [("schemas", .obj [
  ("Bar", .obj [("type", .str "object")]),
  ("Bars", .obj [("type", .str "array"),
    ("items", .obj [("$ref", .str "#/components/schemas/Bar")])]),
  ("Grid", .obj [("type", .str "array"), ("items", .obj [("type", .str "array"),
    ("items", .obj [("$ref", .str "#/components/schemas/Bar")])])])])])]

/-- `any`, the model, the row of it, and the rows with the row that they are made of. -/
def barTypes : Array TypeInfo := #[anyType, TypeInfo.named "Bar",
  { TypeInfo.builtin "Bar[]" with isArray := true, element := some 1 },
  { TypeInfo.builtin "Bar[]" with isArray := true, element := some 1 },
  { TypeInfo.builtin "Bar[][]" with isArray := true, element := some 3 }]

theorem exists_barTypes : ∃ d, Document.ofJson barRows = .ok d ∧
    (served d [.call .all]).graph.types = barTypes ∧
    (served d [.call .all]).graph.dependencies 2 = [1] ∧
    (served d [.call .all]).graph.dependencies 4 = [] := by
  have hrun : (Document.ofJson barRows).map (fun d =>
      ((served d [.call .all]).graph.types, (served d [.call .all]).graph.dependencies 2,
        (served d [.call .all]).graph.dependencies 4)) = .ok (barTypes, [1], []) := by
    decide +kernel
  cases hd : Document.ofJson barRows with
  | error e => rw [hd] at hrun; cases hrun
  | ok d =>
    rw [hd] at hrun
    obtain ⟨htypes, hrest⟩ := Prod.mk.inj (Except.ok.inj hrun)
    obtain ⟨hrow, hrows⟩ := Prod.mk.inj hrest
    exact ⟨d, rfl, htypes, hrow, hrows⟩

theorem get_of_types {g : TypeGraph} (h : g.types = barTypes) (id : TypeId) :
    g.get id = (barTypes[id]?).getD (TypeInfo.builtin "") := by
  rw [TypeGraph.get, TypeGraph.get?, h]

/-- Rows of rows of a model need no models, though they are written with its name. -/
theorem uncovered_barRows :
    ¬ ∀ (root : Json) (d : Document) (requests : List Request) (a : TypeId),
      Document.ofJson root = .ok d → a < (served d requests).graph.size →
      ((served d requests).graph.get a).isArray = true → (served d requests).graph.Covered a := by
  intro hclaim
  obtain ⟨d, hd, htypes, -, hnone⟩ := exists_barTypes
  have hcovered := hclaim barRows d [.call .all] 4 hd
  generalize (served d [.call .all]).graph = g at htypes hnone hcovered
  have hget := get_of_types htypes
  have hsize : 4 < g.size := by rw [TypeGraph.size, htypes]; decide
  have hinner : NamedIn g 1 3 :=
    .element (by rw [hget]; rfl) (by rw [hget]; rfl) (.self (by rw [hget]; rfl))
  have hmentions : g.Mentions 4 1 :=
    ⟨.element (by rw [hget]; rfl) (by rw [hget]; rfl) hinner, by rw [hget]; rfl, by rw [hget]; rfl⟩
  obtain ⟨v, hv, -⟩ := hcovered hsize (by rw [hget]; rfl) 1 hmentions
  rw [hnone] at hv
  exact List.not_mem_nil hv

theorem array_dependencies_exact_barRows : ∃ d, Document.ofJson barRows = .ok d ∧
    (served d [.call .all]).graph.dependencies 2 = [1] ∧
    (served d [.call .all]).graph.Covered 2 := by
  obtain ⟨d, hd, htypes, hrow, -⟩ := exists_barTypes
  have hget := get_of_types htypes
  have hsize : 2 < (served d [.call .all]).graph.size := by rw [TypeGraph.size, htypes]; decide
  have ha : ((served d [.call .all]).graph.get 2).isArray = true := by rw [hget]; rfl
  have he : ((served d [.call .all]).graph.get 2).element = some 1 := by rw [hget]; rfl
  obtain ⟨element, helement, -, hcovered, -⟩ := array_dependencies_exact hd hsize ha
  rw [he] at helement
  cases helement
  refine ⟨d, hd, hrow, hcovered.2 fun u hu => ?_⟩
  have hone : u = 1 := by
    cases (namedIn_array_iff ha he).1 hu.named with
    | self => rfl
    | element ha' => rw [hget] at ha'; cases ha'
    | argument _ hg' => rw [hget] at hg'; cases hg'
  subst hone
  rw [hget, hget]
  decide

end Resolver

end TypedClient
