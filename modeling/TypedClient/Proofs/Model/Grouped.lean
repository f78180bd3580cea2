import TypedClient.Proofs.Alike
import TypedClient.Proofs.Model.AnyOrder

/-! The order of models. Grouping puts the items of each key in one run, in the order in which they
come, and the runs in the order in which their keys first come. The registered types that are models
come in the order of their first names in the registry. So the models of a projection stand file by
file, files in the order of their first models, and in each file in the order of the registry. -/

namespace TypedClient

theorem eraseDups_concat {α : Type} [DecidableEq α] (xs : List α) (a : α) :
    (xs ++ [a]).eraseDups = if a ∈ xs then xs.eraseDups else xs.eraseDups ++ [a] := by
  rw [List.eraseDups_append]
  split
  · next ha => simp [ha, List.removeAll]
  · next ha => simp [ha, List.removeAll, List.eraseDups_cons]

namespace Assoc

variable {κ α : Type} [DecidableEq κ]

/-- A map of lists, one after the other, by its keys. -/
theorem flatMap_snd {m : Assoc κ (List α)} (h : (keys m).Nodup) :
    m.flatMap Prod.snd = (keys m).flatMap fun k => (get? m k).getD [] := by
  rw [keys, List.flatMap_map]
  refine List.flatMap_congr fun p hp => ?_
  rw [get?_of_mem h hp, Option.getD_some]

end Assoc

namespace Model

/-! ### Groups -/

section Grouping

variable {α : Type} {key : α → String} {items : List α}

/-- The items of a list by their keys. -/
def gather (key : α → String) (items : List α) : Assoc String (List α) :=
  items.foldl (fun m a => Assoc.modify m (key a) [] fun group => group ++ [a]) []

theorem gather_concat (key : α → String) (items : List α) (a : α) :
    gather key (items ++ [a]) =
      Assoc.modify (gather key items) (key a) [] fun group => group ++ [a] := by
  simp only [gather, List.foldl_append, List.foldl_cons, List.foldl_nil]

theorem keys_gather (key : α → String) (items : List α) :
    Assoc.keys (gather key items) = (items.map key).eraseDups := by
  induction items using List.reverseRecOn with
  | nil => rfl
  | append_singleton items a ih =>
    simp only [gather_concat, Assoc.modify, Assoc.keys_put, ih, List.map_append,
      List.map_singleton, eraseDups_concat, List.mem_eraseDups]

/-- The group of a key has the items with this key, in their order. -/
theorem get?_gather (key : α → String) (items : List α) (k : String) :
    (Assoc.get? (gather key items) k).getD [] = items.filter (key · == k) := by
  induction items using List.reverseRecOn with
  | nil => rfl
  | append_singleton items a ih =>
    rw [gather_concat, Assoc.modify, Assoc.get?_put, List.filter_append]
    by_cases hk : key a = k
    · subst hk
      simp [ih]
    · simp [ih, hk]

theorem groupBy_eq (key : α → String) (items : List α) :
    groupBy key items = (items.map key).eraseDups.flatMap fun k => items.filter (key · == k) := by
  have hnodup : (Assoc.keys (gather key items)).Nodup := keys_gather key items ▸ nodup_eraseDups _
  have hgroups : groupBy key items = (gather key items).flatMap Prod.snd := rfl
  simp only [hgroups, Assoc.flatMap_snd hnodup, keys_gather, get?_gather]

variable {R : α → α → Prop}

/-- Of two keys, the one that comes first has an item before all those of the other one. -/
theorem pairwise_keys (h : items.Pairwise R) :
    (items.map key).eraseDups.Pairwise fun k k' =>
      ∃ a ∈ items, key a = k ∧ ∀ b ∈ items, key b = k' → R a b := by
  induction items using List.reverseRecOn with
  | nil => exact .nil
  | append_singleton items last ih =>
    obtain ⟨hitems, -, hlast⟩ := List.pairwise_append.1 h
    replace hlast : ∀ a ∈ items, R a last := fun a ha => hlast a ha last List.mem_cons_self
    have hold : (items.map key).eraseDups.Pairwise fun k k' =>
        ∃ a ∈ items ++ [last], key a = k ∧ ∀ b ∈ items ++ [last], key b = k' → R a b := by
      refine (ih hitems).imp fun {k k'} ⟨a, ha, hk, hbefore⟩ => ?_
      refine ⟨a, List.mem_append_left _ ha, hk, fun b hb hk' => ?_⟩
      rcases List.mem_append.1 hb with hb | hb
      · exact hbefore b hb hk'
      · rw [List.mem_singleton.1 hb]
        exact hlast a ha
    rw [List.map_append, List.map_singleton, eraseDups_concat]
    split
    · exact hold
    · next hknown =>
      refine List.pairwise_append.2 ⟨hold, List.pairwise_singleton _ _, fun k hk k' hk' => ?_⟩
      rw [List.mem_singleton.1 hk']
      obtain ⟨a, ha, rfl⟩ := List.mem_map.1 (List.mem_eraseDups.1 hk)
      refine ⟨a, List.mem_append_left _ ha, rfl, fun b hb hkey => ?_⟩
      rcases List.mem_append.1 hb with hb | hb
      · exact absurd (List.mem_map.2 ⟨b, hb, hkey⟩) hknown
      · rw [List.mem_singleton.1 hb]
        exact hlast a ha

/-- Of two items in groups, the first one comes first in the list if they have one key, and otherwise
there is an item with its key that comes before all those with the key of the other one. -/
theorem pairwise_groupBy (h : items.Pairwise R) :
    (groupBy key items).Pairwise fun a b =>
      (key a = key b → R a b) ∧
      (key a ≠ key b → ∃ a' ∈ items, key a' = key a ∧ ∀ b' ∈ items, key b' = key b → R a' b') := by
  have hkey : ∀ {k a}, a ∈ items.filter (key · == k) → key a = k := fun ha => by
    simpa using (List.mem_filter.1 ha).2
  rw [groupBy_eq, List.pairwise_flatMap]
  constructor
  · intro k _
    refine (h.filter (key · == k)).imp_of_mem fun {a b} ha hb hR => ⟨fun _ => hR, fun hne => ?_⟩
    exact absurd ((hkey ha).trans (hkey hb).symm) hne
  · refine (List.pairwise_and_iff.2 ⟨pairwise_keys h, nodup_eraseDups (items.map key)⟩).imp ?_
    rintro k k' ⟨hbefore, hne⟩ a ha b hb
    rw [hkey ha, hkey hb]
    exact ⟨fun heq => absurd heq hne, fun _ => hbefore⟩

end Grouping

/-! ### Places in the registry -/

/-- The values of a list without doubles stand in the order of their first places. -/
theorem pairwise_eraseDups (ids : List TypeId) :
    ids.eraseDups.Pairwise fun a b => ids.idxOf a < ids.idxOf b := by
  induction ids using List.reverseRecOn with
  | nil => exact .nil
  | append_singleton ids last ih =>
    have hold : ids.eraseDups.Pairwise fun a b =>
        (ids ++ [last]).idxOf a < (ids ++ [last]).idxOf b := by
      refine ih.imp_of_mem fun {a b} ha hb hlt => ?_
      rwa [List.idxOf_append_of_mem (List.mem_eraseDups.1 ha),
        List.idxOf_append_of_mem (List.mem_eraseDups.1 hb)]
    rw [eraseDups_concat]
    split
    · exact hold
    · next hknown =>
      refine List.pairwise_append.2 ⟨hold, List.pairwise_singleton _ _, fun a ha b hb => ?_⟩
      have hmem := List.mem_eraseDups.1 ha
      rw [List.mem_singleton.1 hb, List.idxOf_append_of_mem hmem,
        List.idxOf_append_of_notMem hknown]
      exact Nat.lt_add_right _ (List.idxOf_lt_length_of_mem hmem)

/-- Where a type is registered first. -/
def place (r : ResolvedTypes) (id : TypeId) : Nat := (Assoc.values r.registry).idxOf id

/-- Where a model of a file is registered first. -/
def filePlace (r : ResolvedTypes) (key : String) : Nat :=
  (Assoc.values r.registry).findIdx fun id =>
    (r.graph.get id).isModel && (r.graph.get id).fileKey == key

theorem pairwise_modelTypes (r : ResolvedTypes) :
    (modelTypes r).Pairwise fun a b => place r a < place r b :=
  (pairwise_eraseDups (Assoc.values r.registry)).filter _

theorem mem_modelTypes_iff {r : ResolvedTypes} {id : TypeId} :
    id ∈ modelTypes r ↔ id ∈ Assoc.values r.registry ∧ (r.graph.get id).isModel = true := by
  rw [modelTypes, List.mem_filter, List.mem_eraseDups]

/-- A file comes first where its first model does. -/
theorem filePlace_le {r : ResolvedTypes} {id : TypeId} (h : id ∈ modelTypes r) :
    filePlace r (r.graph.get id).fileKey ≤ place r id := by
  obtain ⟨hmem, hmodel⟩ := mem_modelTypes_iff.1 h
  by_contra hlt
  have hnot := List.not_of_lt_findIdx (not_le.1 hlt)
  simp [place, List.getElem_idxOf, hmodel] at hnot

theorem exists_place_le {r : ResolvedTypes} {id : TypeId} (h : id ∈ modelTypes r) :
    ∃ first ∈ modelTypes r, (r.graph.get first).fileKey = (r.graph.get id).fileKey ∧
      place r first ≤ filePlace r (r.graph.get id).fileKey := by
  obtain ⟨hmem, hmodel⟩ := mem_modelTypes_iff.1 h
  have hlt : filePlace r (r.graph.get id).fileKey < (Assoc.values r.registry).length :=
    List.findIdx_lt_length_of_exists ⟨id, hmem, by simp [hmodel]⟩
  have hfirst := List.findIdx_getElem (w := hlt)
  rw [Bool.and_eq_true, beq_iff_eq] at hfirst
  refine ⟨_, mem_modelTypes_iff.2 ⟨List.getElem_mem hlt, hfirst.1⟩, hfirst.2, ?_⟩
  by_contra hle
  have hne := List.not_of_lt_findIdx (not_le.1 hle)
  rw [beq_self_eq_true] at hne
  cases hne

/-! ### The order of models -/

/-- Models of one file stand in the order of the registry, files in that of their first models. -/
def Precedes (r : ResolvedTypes) (a b : TypeId) : Prop :=
  if (r.graph.get a).fileKey = (r.graph.get b).fileKey then place r a < place r b
  else filePlace r (r.graph.get a).fileKey < filePlace r (r.graph.get b).fileKey

/-- Files come first in some order, so a model between two of one file is in this file. -/
theorem fileKey_between {r : ResolvedTypes} {a between b : TypeId} (hstart : Precedes r a between)
    (hend : Precedes r between b) (h : (r.graph.get a).fileKey = (r.graph.get b).fileKey) :
    (r.graph.get between).fileKey = (r.graph.get a).fileKey := by
  by_contra hne
  rw [Precedes, if_neg (Ne.symm hne)] at hstart
  rw [Precedes, ← h, if_neg hne] at hend
  exact lt_asymm hstart hend

theorem pairwise_precedes (r : ResolvedTypes) :
    (groupBy (fun id => (r.graph.get id).fileKey) (modelTypes r)).Pairwise (Precedes r) := by
  refine (pairwise_groupBy (pairwise_modelTypes r)).imp_of_mem ?_
  rintro a b - hb ⟨hsame, hother⟩
  unfold Precedes
  split
  · next heq => exact hsame heq
  · next hne =>
    obtain ⟨a', ha', hfile, hbefore⟩ := hother hne
    obtain ⟨b', hb', hfile', hle⟩ := exists_place_le ((groupBy_perm _ _).mem_iff.1 hb)
    calc filePlace r (r.graph.get a).fileKey = filePlace r (r.graph.get a').fileKey := by rw [hfile]
      _ ≤ place r a' := filePlace_le ha'
      _ < place r b' := hbefore b' hb' hfile'
      _ ≤ filePlace r (r.graph.get b).fileKey := hle

/-- Models as a projection has them. -/
structure Grouped (r : ResolvedTypes) (ids : List TypeId) : Prop where
  /-- Each registered model once. -/
  nodup : ids.Nodup
  mem_iff : ∀ id, id ∈ ids ↔ id ∈ Assoc.values r.registry ∧ (r.graph.get id).isModel = true
  /-- What stands between models of one file is a model of this file. -/
  together : ∀ {a between b : TypeId}, [a, between, b].Sublist ids →
    (r.graph.get a).fileKey = (r.graph.get b).fileKey →
      (r.graph.get between).fileKey = (r.graph.get a).fileKey
  order : ids.Pairwise (Precedes r)

/-- A projection has one entry for each registered model, with the key of its file: file by file, in
the order of their first models, and in each file in the order of the registry. -/
theorem project_grouped (r : ResolvedTypes) :
    ∃ ids, project r = ids.map (entry r.graph) ∧
      (project r).map ModelEntry.key = ids.map (fun id => (r.graph.get id).fileKey) ∧
      Grouped r ids := by
  have hperm := groupBy_perm (fun id => (r.graph.get id).fileKey) (modelTypes r)
  have horder := pairwise_precedes r
  refine ⟨_, rfl, ?_, hperm.nodup_iff.2 (nodup_modelTypes r),
    fun id => hperm.mem_iff.trans mem_modelTypes_iff, fun {a between b} hsub heq => ?_, horder⟩
  · rw [project, List.map_map]
    exact List.map_congr_left fun id _ => entry_key r.graph id
  · have hthree := horder.sublist hsub
    rw [List.pairwise_cons, List.pairwise_cons] at hthree
    exact fileKey_between (hthree.1 between List.mem_cons_self)
      (hthree.2.1 b List.mem_cons_self) heq

end Model

end TypedClient
