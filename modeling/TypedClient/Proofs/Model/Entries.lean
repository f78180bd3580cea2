import Mathlib.Logic.Relation
import TypedClient.Model.Project
import TypedClient.Proofs.Types.Order

/-! The models of a projection: one for each registered type that is a model, in some order. What a
model imports are types that its type refers to, directly or through others. -/

namespace TypedClient

namespace Model

/-! ### Groups -/

/-- Grouping brings items together and loses none. -/
theorem groupBy_perm {α : Type} (key : α → String) (items : List α) :
    (groupBy key items).Perm items := by
  have hadd : ∀ (m : Assoc String (List α)) (k : String) (a : α),
      ((Assoc.modify m k [] fun group => group ++ [a]).flatMap Prod.snd).Perm
        (m.flatMap Prod.snd ++ [a]) := by
    intro m k a
    unfold Assoc.modify
    cases hk : Assoc.get? m k with
    | none =>
      rw [Assoc.put_of_get?_none hk, List.flatMap_append]
      exact List.Perm.refl _
    | some group =>
      obtain ⟨before, after, rfl, hput⟩ := Assoc.put_of_get?_some hk
      rw [hput]
      simp only [List.flatMap_append, List.flatMap_cons, Option.getD_some, List.append_assoc]
      refine List.Perm.append_left _ (List.Perm.append_left _ ?_)
      exact List.perm_append_comm
  unfold groupBy
  suffices h : ∀ m : Assoc String (List α),
      ((items.foldl (fun m a => Assoc.modify m (key a) [] fun group => group ++ [a]) m).flatMap
        Prod.snd).Perm (m.flatMap Prod.snd ++ items) from h []
  induction items with
  | nil => exact fun m => by rw [List.append_nil]; exact List.Perm.refl _
  | cons a items ih =>
    intro m
    refine (ih _).trans ?_
    rw [← List.singleton_append, ← List.append_assoc]
    exact (hadd m (key a) a).append_right items

/-! ### Entries -/

variable {r : ResolvedTypes} {id : TypeId} {m : ModelEntry}

theorem mem_modelTypes (hr : (Assoc.keys r.registry).Nodup) :
    id ∈ modelTypes r ↔
      (∃ name, Assoc.get? r.registry name = some id) ∧ (r.graph.get id).isModel = true := by
  rw [modelTypes, List.mem_filter, List.mem_eraseDups, Assoc.values, List.mem_map]
  refine and_congr_left fun _ => ⟨?_, ?_⟩
  · rintro ⟨⟨name, id⟩, hmem, rfl⟩
    exact ⟨name, Assoc.get?_of_mem hr hmem⟩
  · rintro ⟨name, h⟩
    exact ⟨(name, id), Assoc.mem_of_get? h, rfl⟩

theorem mem_project : m ∈ project r ↔ ∃ id ∈ modelTypes r, entry r.graph id = m := by
  rw [project, List.mem_map]
  refine exists_congr fun id => and_congr_left fun _ => ?_
  exact (groupBy_perm _ _).mem_iff

theorem entry_key (g : TypeGraph) (id : TypeId) : (entry g id).key = (g.get id).fileKey := by
  unfold entry
  dsimp only
  split <;> rfl

theorem entry_exportName (g : TypeGraph) (id : TypeId) :
    (entry g id).exportName = (g.get id).name := by
  unfold entry
  dsimp only
  split <;> rfl

/-- The entry of a type that is no enumeration has the properties of the type. -/
theorem entry_propertyNames {g : TypeGraph} {id : TypeId} (h : (g.get id).isEnum = false) :
    (entry g id).properties.map ModelProperty.name = Assoc.keys (g.get id).properties := by
  unfold entry
  dsimp only
  rw [if_neg (Bool.eq_false_iff.1 h)]
  dsimp only
  rw [properties, List.map_map]
  rfl

/-- What an entry imports are types that it needs. -/
theorem needed_of_mem_dependencies {g : TypeGraph} {dependency : Dependency}
    (h : dependency ∈ (entry g id).dependencies) :
    ∃ u ∈ g.dependencies id, dependency = ⟨(g.get u).fileKey, (g.get u).name⟩ := by
  unfold entry at h
  dsimp only at h
  split at h
  · exact absurd h List.not_mem_nil
  · unfold imports at h
    obtain ⟨u, hu, rfl⟩ := List.mem_map.1 (List.mem_filter.1 (List.mem_eraseDups.1 h)).1
    exact ⟨u, hu, rfl⟩

end Model

/-! ### Dependencies -/

namespace TypeGraph

open Relation

variable {g : TypeGraph} {owner : TypeInfo} {id u : TypeId}

/-- The type refers to the other one. -/
def Refers (g : TypeGraph) (t u : TypeId) : Prop := u ∈ (g.get t).references

/-- The type counts where it is needed: it is neither built in nor a parameter. -/
def Counts (g : TypeGraph) (u : TypeId) : Prop :=
  (g.get u).isBuiltin = false ∧ (g.get u).isGenericParameter = false

theorem mem_values_keep {target : TypeId} {t : TypeInfo} {found : Assoc String TypeId}
    (h : u ∈ Assoc.values (keep owner target t found)) :
    u ∈ Assoc.values found ∨
      (u = target ∧ t.isBuiltin = false ∧ t.isGenericParameter = false) := by
  unfold keep at h
  split at h
  · exact .inl h
  · next hkept =>
    simp only [Bool.or_eq_true, not_or, Bool.not_eq_true] at hkept
    split at h
    · exact .inl h
    · rcases Assoc.mem_values_put h with rfl | h
      · exact .inr ⟨rfl, hkept.1.2, hkept.2⟩
      · exact .inl h

theorem mem_values_foldl {f : Assoc String TypeId → TypeId → Assoc String TypeId}
    {P : TypeId → Prop}
    (hf : ∀ found target, u ∈ Assoc.values (f found target) →
      u ∈ Assoc.values found ∨ P target) {targets : List TypeId} :
    ∀ found, u ∈ Assoc.values (targets.foldl f found) →
      u ∈ Assoc.values found ∨ ∃ target ∈ targets, P target := by
  induction targets with
  | nil => exact fun found h => .inl h
  | cons target rest ih =>
    intro found h
    rcases ih _ h with h | ⟨other, ho, hP⟩
    · exact (hf found target h).imp_right fun hP => ⟨target, List.mem_cons_self, hP⟩
    · exact .inr ⟨other, List.mem_cons_of_mem target ho, hP⟩

/-- What is collected from a reference is reached from it. -/
theorem mem_values_collectWithin (depth : Nat) (found : Assoc String TypeId) (target : TypeId)
    (h : u ∈ Assoc.values (collectWithin g owner depth found target)) :
    u ∈ Assoc.values found ∨ (ReflTransGen g.Refers target u ∧ g.Counts u) := by
  induction depth generalizing found target with
  | zero => exact .inl h
  | succ depth ih =>
    rw [collectWithin_succ] at h
    rcases mem_values_keep h with h | ⟨rfl, hcounts⟩
    · have hstep : ∀ {targets : List TypeId} {found},
          (∀ t ∈ targets, g.Refers target t) →
          u ∈ Assoc.values (targets.foldl (collectWithin g owner depth) found) →
          u ∈ Assoc.values found ∨ (ReflTransGen g.Refers target u ∧ g.Counts u) := by
        intro targets found hrefers hu
        refine (mem_values_foldl (P := fun t => ReflTransGen g.Refers t u ∧ g.Counts u) ih found
          hu).imp_right ?_
        rintro ⟨t, ht, hreach, hcounts⟩
        exact ⟨.head (hrefers t ht) hreach, hcounts⟩
      rcases hstep (fun t ht => mem_references_of_nested ht) h with h | h
      · exact hstep (fun t ht => mem_references_of_argument ht) h
      · exact .inr h
    · exact .inr ⟨.refl, hcounts⟩

/-- A type needs types that it refers to, directly or through others. -/
theorem reaches_of_mem_dependencies (h : u ∈ g.dependencies id) :
    TransGen g.Refers id u ∧ g.Counts u := by
  unfold dependencies at h
  rcases mem_values_foldl (P := fun t => ReflTransGen g.Refers t u ∧ g.Counts u)
    (mem_values_collectWithin g.size) [] h with h | ⟨t, ht, hreach, hcounts⟩
  · exact absurd h List.not_mem_nil
  · exact ⟨.head' (mem_references_of_root ht) hreach, hcounts⟩

end TypeGraph

end TypedClient
