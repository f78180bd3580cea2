import Mathlib.Data.List.Permutation
import TypedClient.Client.MediaTypeGrammar
import TypedClient.Model.Project
import TypedClient.Proofs.Model.References
import TypedClient.Proofs.Reach
import TypedClient.Reach
import TypedClient.Text.AsciiTable

/-! Imports between the files of models. Which files are reported as importing each other, for any
models: several of one file, imports of files that hold no model, and files that import themselves.
Then the models of a document: types refer to older types only, a reference that would close a cycle
having been cut, and a model imports what its type refers to. Without generic types what is imported
is a model itself. So where each file holds one model, imports lead to files of older types, and
never back; where schemas refer to each other in circles, too. -/

namespace TypedClient

open Relation

/-! ### Files that import each other -/

namespace Model

variable {models : List ModelEntry}

/-- A model of the one file imports the other. -/
def Imports (models : List ModelEntry) (x y : String) : Prop :=
  ∃ m ∈ models, m.key = x ∧ ∃ dependency ∈ m.dependencies, dependency.id = y

theorem edge_importsOf (models : List ModelEntry) :
    Graph.Edge (importsOf models) = Imports models := by
  funext x y
  simp only [Graph.Edge, importsOf, Imports, List.mem_eraseDups, List.mem_flatMap, List.mem_filter,
    beq_iff_eq, List.mem_map, and_assoc]

theorem within_files (models : List ModelEntry) :
    Graph.Within (files models) (importsOf models) := by
  intro x y hedge
  rw [edge_importsOf] at hedge
  obtain ⟨m, hm, -, dependency, hneeded, rfl⟩ := hedge
  exact List.mem_eraseDups.2 <| List.mem_flatMap.2
    ⟨m, hm, List.mem_cons_of_mem _ (List.mem_map_of_mem hneeded)⟩

theorem nodup_files (models : List ModelEntry) : (files models).Nodup := nodup_eraseDups _

/-- **Files are reported together exactly if each imports the other, directly or through others. A
file is reported alone exactly if it imports itself and is in no larger group. Groups have no file
in common, are sorted, and stand in order.** -/
theorem importCycles_exact [Graph.Components] [Graph.LawfulComponents] (models : List ModelEntry) :
    (∀ x y, (∃ group ∈ importCycles models, x ∈ group ∧ y ∈ group) ↔
      TransGen (Imports models) x y ∧ TransGen (Imports models) y x) ∧
    (∀ x, [x] ∈ importCycles models ↔
      Imports models x x ∧ ∀ group ∈ importCycles models, x ∈ group → group.length ≤ 1) ∧
    (importCycles models).Pairwise List.Disjoint ∧
    (∀ group ∈ importCycles models, group ≠ [] ∧ group.Pairwise (· < ·)) ∧
    (importCycles models).Pairwise (· < ·) := by
  have hin := within_files models
  have hnodup := nodup_files models
  rw [← edge_importsOf]
  exact ⟨fun x y => Graph.share_group_iff hnodup hin, fun x => Graph.singleton_mem_groups hnodup hin,
    Graph.disjoint_groups hnodup hin, fun group hgroup =>
      ⟨Graph.ne_nil_of_mem_groups hnodup hin hgroup, Graph.pairwise_lt_group hnodup hin hgroup⟩,
    Graph.pairwise_lt_groups hnodup hin⟩

/-- A tree whose nodes know their parents in another file, and lists that are made of lists. -/
def treeFiles : List ModelEntry :=
  let file (key : String) (imported : List String) : ModelEntry :=
    { name := key, exportName := key, key, dependencies := imported.map fun id => ⟨id, id⟩ }
  [file "Tree" ["Node"], file "Leaf" ["Parent"], file "Parent" ["Node"],
    file "Node" ["Leaf", "Label"], file "List" ["List", "Node"]]

theorem importCycles_exact_treeFiles :
    importCycles treeFiles = [["Leaf", "Node", "Parent"], ["List"]] ∧
      TransGen (Imports treeFiles) "Leaf" "Parent" ∧ TransGen (Imports treeFiles) "Parent" "Leaf" ∧
      Imports treeFiles "List" "List" ∧
      ¬(TransGen (Imports treeFiles) "Tree" "Node" ∧ TransGen (Imports treeFiles) "Node" "Tree") := by
  have hgroups : importCycles treeFiles = [["Leaf", "Node", "Parent"], ["List"]] := by cbv
  obtain ⟨hshare, hsingle, -⟩ := importCycles_exact treeFiles
  rw [hgroups] at hshare hsingle
  obtain ⟨hahead, hback⟩ := (hshare "Leaf" "Parent").1 ⟨_, List.mem_cons_self, by simp, by simp⟩
  refine ⟨hgroups, hahead, hback, ((hsingle "List").1 (by simp)).1, fun h => ?_⟩
  have hnone := (hshare "Tree" "Node").2 h
  revert hnone
  decide

end Model

/-! ### References lead to older types -/

namespace TypeGraph

variable {g : TypeGraph} {t u : TypeId}

theorem Ordered.lt_of_refers (hg : g.Ordered) (h : g.Refers t u) : u < t := by
  by_cases ht : t < g.size
  · exact hg.older (get?_eq_get ht) u h
  · unfold Refers at h
    rw [get_of_size_le (Nat.le_of_not_lt ht)] at h
    exact absurd h List.not_mem_nil

theorem Ordered.lt_of_reaches (hg : g.Ordered) (h : TransGen g.Refers t u) : u < t := by
  induction h with
  | single h => exact hg.lt_of_refers h
  | tail _ h ih => exact Nat.lt_trans (hg.lt_of_refers h) ih

end TypeGraph

/-! ### Documents without generic types -/

/-- No schema says that its type is generic. -/
def Document.Ungeneric (d : Document) : Prop :=
  ∀ id, (d.arena.get id).hints.isGenericType = false

instance (d : Document) : Decidable d.Ungeneric :=
  decidable_of_iff (∀ id < d.arena.size, (d.arena.get id).hints.isGenericType = false)
    ⟨fun h id => by
      by_cases hid : id < d.arena.size
      · exact h id hid
      · rw [Arena.get_of_size_le (Nat.le_of_not_lt hid)], fun h id _ => h id⟩

namespace Resolver

variable {d : Document} {r : Resolver} {u : TypeId}

theorem genericDefinition_of_titles {id : NodeId} {nameable : Bool} {made info : TypeInfo}
    (h : d.Titles id nameable made info) : info.genericDefinition = made.genericDefinition := by
  cases h <;> rfl

/-- What is made without generic types is no instance of a definition. -/
theorem genericDefinition_of_makes (hplain : d.Ungeneric) {id : NodeId} {source : Source}
    {made : TypeInfo} {nameable : Bool} (htold : d.source? id = some source)
    (h : source.Makes r made nameable) : made.genericDefinition = none := by
  cases h with
  | openArray | array => rfl
  | enum =>
    obtain ⟨primitive, literals, rfl⟩ := Document.source?_enum htold
    rfl
  | @object plan _ _ _ _ hb hp hg =>
    obtain ⟨shape, hstart, hgenerics⟩ := Document.source?_object htold
    have hunmarked := Document.isMarked_of_genericity? hgenerics
    rw [hplain id] at hunmarked
    generalize plan.generics = generics at hg hunmarked
    rw [hstart] at hg
    cases hg with
    | plain | openRecord | record => rfl
    | definition | applied | keyed => exact absurd hunmarked Bool.false_ne_true

theorem Rooted.genericDefinition (hplain : d.Ungeneric) (hg : r.graph.Ordered)
    (h : Rooted d r u) : (r.graph.get u).genericDefinition = none := by
  rcases h with rfl | ⟨name, hn⟩ | ⟨id, source, made, nameable, -, hmade⟩
  · rw [TypeGraph.get_of_get? hg.any.1]
    rfl
  · rw [TypeGraph.get_of_get? (hg.intrinsic hn)]
    rfl
  · obtain ⟨info, hinfo, htitles⟩ := hmade.titled
    rw [TypeGraph.get_of_get? hinfo, genericDefinition_of_titles htitles]
    exact genericDefinition_of_makes hplain hmade.told hmade.makes

end Resolver

/-! ### Imports -/

namespace Projection

open Model Resolver

variable {d : Document} {p : Projection} {options : Client.Options} {root : Json}

/-- Where each file holds one model, the key of the file tells the type. -/
theorem eq_of_fileKey {r : ResolvedTypes} (hkeys : ((project r).map ModelEntry.key).Nodup)
    {t u : TypeId} (ht : t ∈ modelTypes r) (hu : u ∈ modelTypes r)
    (h : (r.graph.get t).fileKey = (r.graph.get u).fileKey) : t = u := by
  rw [project, List.map_map] at hkeys
  refine List.inj_on_of_nodup_map hkeys ((groupBy_perm _ _).mem_iff.2 ht)
    ((groupBy_perm _ _).mem_iff.2 hu) ?_
  show (entry r.graph t).key = (entry r.graph u).key
  rw [entry_key, entry_key, h]

/-- Without generic types a model imports models of older types. -/
theorem older_of_import [MediaType.Reading] {r : Resolver} (hr : Finished d r)
    (hplain : d.Ungeneric)
    {models : List ModelEntry} (hmodels : models = project (typesOf r)) {x y : String}
    (h : Graph.Edge (importsOf models) x y) :
    ∃ t ∈ modelTypes (typesOf r), ∃ u ∈ modelTypes (typesOf r),
      (r.graph.get t).fileKey = x ∧ (r.graph.get u).fileKey = y ∧ u < t := by
  unfold Graph.Edge importsOf at h
  obtain ⟨m, hm, himported⟩ := List.mem_flatMap.1 (List.mem_eraseDups.1 h)
  obtain ⟨hm, hkey⟩ := List.mem_filter.1 hm
  obtain ⟨dependency, hneeded, rfl⟩ := List.mem_map.1 himported
  rw [hmodels] at hm
  obtain ⟨t, ht, htypes, rfl⟩ := rooted_of_mem_project hr hm
  obtain ⟨u, hu, rfl⟩ := needed_of_mem_dependencies hneeded
  obtain ⟨hreach, hcounts⟩ := TypeGraph.reaches_of_mem_dependencies hu
  have hrooted := ht.reaches hr.faithful hr.types.graph hreach
  refine ⟨t, htypes, u, ?_, ?_, rfl, hr.types.graph.lt_of_reaches hreach⟩
  · rcases model_or_instance hr.faithful hr.types.graph hrooted hcounts with
      ⟨⟨name, _, hregistered, -⟩, hmodel⟩ | ⟨v, -, -, -, -, hdefinition, -⟩
    · exact (mem_modelTypes hr.distinct).2 ⟨⟨name, hregistered⟩, hmodel⟩
    · rw [hrooted.genericDefinition hplain hr.types.graph] at hdefinition
      cases hdefinition
  · rw [← entry_key]
    exact of_decide_eq_true hkey

/-- **Files that hold one model each do not import each other in a circle, in a document without
generic types.** -/
theorem importCycles_eq_nil [MediaType.Reading] [Text.Transliteration] [Graph.Components]
    [Graph.LawfulComponents] (h : Document.ofJson root = .ok d) (hplain : d.Ungeneric)
    (hp : build d options = .ok p) (hkeys : (p.models.map ModelEntry.key).Nodup) :
    importCycles p.models = [] := by
  obtain ⟨r, hr, -, hmodels⟩ := finished_of_build h hp
  rw [hmodels] at hkeys
  -- a path of imports leads from the file of a type to that of an older one
  have holder : ∀ {x y}, TransGen (Graph.Edge (importsOf p.models)) x y →
      ∃ t ∈ modelTypes (typesOf r), ∃ u ∈ modelTypes (typesOf r),
        (r.graph.get t).fileKey = x ∧ (r.graph.get u).fileKey = y ∧ u < t := by
    intro x y hpath
    induction hpath with
    | single hedge => exact older_of_import hr hplain hmodels hedge
    | tail _ hedge ih =>
      obtain ⟨t, ht, u, hu, hx, hmiddle, hlt⟩ := ih
      obtain ⟨u', hu', v, hv, hmiddle', hy, hlt'⟩ := older_of_import hr hplain hmodels hedge
      obtain rfl := eq_of_fileKey hkeys hu hu' (hmiddle.trans hmiddle'.symm)
      exact ⟨t, ht, v, hv, hx, hy, Nat.lt_trans hlt' hlt⟩
  refine Graph.groups_eq_nil (nodup_files _) (within_files _) fun x hcycle => ?_
  obtain ⟨t, ht, u, hu, hx, hx', hlt⟩ := holder hcycle
  obtain rfl := eq_of_fileKey hkeys ht hu (hx.trans hx'.symm)
  exact Nat.lt_irrefl _ hlt

/-- An owner with pets, each of which has an owner. -/
def ownedPets : Json := .obj [("openapi", .str "3.0.0"), ("components", .obj [("schemas", .obj [
  ("Owner", .obj [("type", .str "object"), ("properties", .obj [
    ("pets", .obj [("type", .str "array"),
      ("items", .obj [("$ref", .str "#/components/schemas/Pet")])])])]),
  ("Pet", .obj [("type", .str "object"), ("properties", .obj [
    ("owner", .obj [("$ref", .str "#/components/schemas/Owner")])])])])])]

theorem importCycles_eq_nil_ownedPets :
    ∃ d p, Document.ofJson ownedPets = .ok d ∧ build d {} = .ok p ∧ d.Ungeneric ∧
      (p.models.map ModelEntry.key).Nodup ∧ p.types.cycles = [["Owner", "Pet", "Owner"]] ∧
      (∃ m ∈ p.models, m.dependencies = [⟨"Pet", "Pet"⟩]) ∧ importCycles p.models = [] := by
  have hrun : (Document.ofJson ownedPets >>= fun d => (fun p =>
      decide ((p.models.map ModelEntry.key).Nodup ∧
        p.types.cycles = [["Owner", "Pet", "Owner"]] ∧
        ∃ m ∈ p.models, m.dependencies = [⟨"Pet", "Pet"⟩])) <$> build d {}) = .ok true := by
    decide +kernel
  have hread : (decide <| Document.Ungeneric ·) <$> Document.ofJson ownedPets = .ok true := by
    decide +kernel
  obtain ⟨d, p, hd, hp, hholds⟩ := exists_of_run hrun
  obtain ⟨hkeys, hcycles, himported⟩ := of_decide_eq_true hholds
  rw [hd] at hread
  have hplain : d.Ungeneric := of_decide_eq_true (Except.ok.inj hread)
  exact ⟨d, p, hd, hp, hplain, hkeys, hcycles, himported,
    importCycles_eq_nil hd hplain hp hkeys⟩

end Projection

end TypedClient
