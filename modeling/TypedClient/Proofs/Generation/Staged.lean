import Mathlib.Data.List.Basic
import TypedClient.Generation.Files
import TypedClient.Proofs.Alike
import TypedClient.Proofs.Path.Place

/-! Which files are staged for the models of a run: one for each key, in the directory of the
models. -/

namespace TypedClient

namespace Output

/-- Whether files go to a directory and not where a function says. -/
def InDirectory : Option OutputPlace → Prop
  | some (.custom _) => False
  | _ => True

/-- The directory of a kind of files. -/
def directory (base : String) (kind : OutputKind) : Option OutputPlace → String
  | some (.directory dir) => Path.join base dir
  | _ => Path.join base kind.name

@[simp] theorem directory_none (base : String) (kind : OutputKind) :
    directory base kind none = Path.join base kind.name := rfl

variable {base name ext : String} {place : Option OutputPlace} {kind : OutputKind}

theorem path_eq_join (h : InDirectory place) (hext : ext.toList.head? = some '.') (force : Bool) :
    path base place name kind ext force = Path.join (directory base kind place)
      (if force || (Path.extension? (Path.join (directory base kind place) name)).isNone then
        name ++ ext else name) := by
  have hbare : bare base place name kind = Path.join (directory base kind place) name := by
    unfold bare directory
    split
    · rfl
    · rfl
    · exact h.elim
  have hpath : path base place name kind ext force =
      if force || (Path.extension? (bare base place name kind)).isNone then
        bare base place name kind ++ ext else bare base place name kind := by
    unfold path
    split
    · exact h.elim
    · rfl
  rw [hpath, hbare]
  split
  · exact Path.join_append _ _ (by rw [hext]; decide)
  · rfl

/-- An extension begins with a dot. -/
theorem head?_extension (asked : Option String) : (extension asked).toList.head? = some '.' := by
  unfold extension
  split
  · rfl
  · rfl
  · next e hne hempty =>
    split
    · next hdot =>
      unfold Text.startsWith at hdot
      obtain ⟨rest, hrest⟩ := List.isPrefixOf_iff_prefix.1 hdot
      rw [← hrest]
      rfl
    · rw [String.toList_append]
      rfl

end Output

namespace Generation

open TypedClient.Path

variable {base : String} {o : ModelOptions} {models : List ModelEntry} {files : ModelFiles}
  {pending : List PendingFile}

/-! ### Names of files -/

/-- The directory of the models. -/
def modelDirectory (base : String) (o : ModelOptions) : String :=
  Output.directory base .models o.place

/-- What the file of a key is called. -/
def modelName (o : ModelOptions) (key : String) : String := key ++ Output.extension o.extension

theorem modelPath_eq_join (h : Output.InDirectory o.place) (key : String) :
    modelPath base o key = join (modelDirectory base o) (modelName o key) := by
  rw [modelPath, Output.path_eq_join h (Output.head?_extension _), Bool.true_or, if_pos rfl]
  rfl

/-! ### Keys -/

theorem keys_byKey (codes : List (String × String)) :
    (Assoc.keys (byKey codes)).Nodup ∧
      ∀ key, key ∈ Assoc.keys (byKey codes) ↔ key ∈ codes.map Prod.fst := by
  unfold byKey
  suffices h : ∀ m : Assoc String (List String), (Assoc.keys m).Nodup →
      (Assoc.keys (codes.foldl (fun m c => Assoc.modify m c.1 [] (· ++ [c.2])) m)).Nodup ∧
        ∀ key, key ∈ Assoc.keys (codes.foldl (fun m c => Assoc.modify m c.1 [] (· ++ [c.2])) m) ↔
          key ∈ Assoc.keys m ∨ key ∈ codes.map Prod.fst by
    simpa [Assoc.keys] using h [] List.nodup_nil
  induction codes with
  | nil => exact fun m hm => ⟨hm, fun key => by simp⟩
  | cons c codes ih =>
    intro m hm
    obtain ⟨hnodup, hmem⟩ := ih _ (Assoc.nodup_keys_put hm c.1 _)
    refine ⟨hnodup, fun key => (hmem key).trans ?_⟩
    rw [Assoc.keys_put, List.map_cons, List.mem_cons]
    split
    · next hc =>
      constructor
      · exact Or.imp_right Or.inr
      · rintro (h | rfl | h)
        exacts [.inl h, .inl hc, .inr h]
    · rw [List.mem_append, List.mem_singleton, or_assoc]

/-- What is staged for models that no hook changes: a file for each key, and the index file. -/
theorem stageModels_eq_ok [Code.Templates] (hhook : o.hook = none)
    (h : stageModels base o models = .ok (files, pending)) :
    ∃ sources, (Assoc.keys sources).Nodup ∧
      (∀ key, key ∈ Assoc.keys sources ↔ key ∈ models.map ModelEntry.key) ∧
      modelFiles base o models sources = (files, pending) := by
  unfold stageModels at h
  rw [hhook] at h
  dsimp only at h
  cases hcodes : models.mapM (modelCode o) with
  | error e => rw [hcodes] at h; cases h
  | ok codes =>
    rw [hcodes] at h
    obtain ⟨hnodup, hmem⟩ := keys_byKey ((models.map ModelEntry.key).zip codes)
    have hlength := (mapM_eq_ok.1 hcodes).length_eq
    rw [List.map_fst_zip (by rw [List.length_map]; exact Nat.le_of_eq hlength)] at hmem
    exact ⟨_, hnodup, hmem, Except.ok.inj h⟩

theorem mem_paths [Code.Templates] (hhook : o.hook = none)
    (h : stageModels base o models = .ok (files, pending))
    {key path : String} :
    (key, path) ∈ files.paths ↔ (∃ m ∈ models, m.key = key) ∧ path = modelPath base o key := by
  obtain ⟨sources, -, hmem, hfiles⟩ := stageModels_eq_ok hhook h
  cases hfiles
  simp only [List.mem_map, Prod.mk.injEq]
  constructor
  · rintro ⟨_, hkey, rfl, rfl⟩
    exact ⟨List.mem_map.1 ((hmem _).1 hkey), rfl⟩
  · rintro ⟨hm, rfl⟩
    exact ⟨key, (hmem key).2 (List.mem_map.2 hm), rfl, rfl⟩

end Generation

end TypedClient
