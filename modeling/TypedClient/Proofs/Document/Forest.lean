import Mathlib.Data.List.Nodup
import Mathlib.Data.List.Range
import TypedClient.Proofs.Document.Trees

/-! The arena of a document that was read is a forest. Its roots and the children of all its nodes,
counted as they stand, are the nodes of the arena in some order: no node stands in two places, and
children are older than what they stand in. -/

namespace TypedClient

namespace Arena

theorem get_push (a : Arena) (node : SchemaNode) (id : NodeId) :
    (a.push node).get id = if id = a.size then node else a.get id := by
  rw [get, get?_push]
  split <;> rfl

theorem get_of_size_le {a : Arena} {id : NodeId} (h : a.size ≤ id) : a.get id = {} := by
  rw [get, get?, Array.getElem?_eq_none h]
  rfl

/-- A position beyond the arena has no children. -/
theorem lt_size_of_mem_children {a : Arena} {id child : NodeId}
    (h : child ∈ (a.get id).children) : id < a.size := by
  by_contra hge
  rw [get_of_size_le (Nat.le_of_not_lt hge)] at h
  exact List.not_mem_nil h

/-- The children of all nodes, node by node. -/
def allChildren (a : Arena) : List NodeId :=
  (List.range a.size).flatMap fun id => (a.get id).children

theorem allChildren_push (a : Arena) (node : SchemaNode) :
    (a.push node).allChildren = a.allChildren ++ node.children := by
  rw [allChildren, size_push, List.range_succ, List.flatMap_append, allChildren]
  congr 1
  · refine List.flatMap_congr fun id hid => ?_
    rw [get_push, if_neg (Nat.ne_of_lt (List.mem_range.1 hid))]
  · rw [List.flatMap_singleton, get_push, if_pos rfl]

namespace Trees

variable {arena : Arena} {roots : List NodeId}

/-- Every node is a root or stands in one place of one node. -/
theorem perm (h : Trees {} arena roots) :
    (roots ++ arena.allChildren).Perm (List.range arena.size) := by
  induction h with
  | none => exact List.Perm.refl _
  | push node _ ih =>
    rw [allChildren_push, size_push, List.range_succ, List.append_assoc]
    refine List.Perm.trans ?_ (ih.append_right _)
    rw [List.append_assoc, List.append_assoc]
    refine List.Perm.append_left _ (List.perm_append_comm.trans ?_)
    rw [← List.append_assoc]
    exact List.perm_append_comm.append_right _

theorem lt_of_mem_children (h : Trees {} arena roots) {id child : NodeId}
    (hc : child ∈ (arena.get id).children) : child < id := by
  induction h with
  | none => exact absurd (lt_size_of_mem_children hc) (Nat.not_lt_zero _)
  | @push arena roots node h ih =>
    rw [get_push] at hc
    split at hc
    · next hid =>
      have hmem : child ∈ roots ++ node.children ++ arena.allChildren :=
        List.mem_append_left _ (List.mem_append_right _ hc)
      rw [hid]
      exact List.mem_range.1 ((h.perm).mem_iff.1 hmem)
    · exact ih hc

theorem nodup (h : Trees {} arena roots) : (roots ++ arena.allChildren).Nodup :=
  h.perm.nodup_iff.2 List.nodup_range

theorem eq_of_mem_children (h : Trees {} arena roots) {x y child : NodeId}
    (hx : child ∈ (arena.get x).children) (hy : child ∈ (arena.get y).children) : x = y := by
  by_contra hne
  have hpair := (List.nodup_flatMap.1 (List.nodup_append.1 h.nodup).2.1).2
  have hsymm : Std.Symm (Function.onFun List.Disjoint fun id => (arena.get id).children) :=
    ⟨fun _ _ hab _ hx hy => hab hy hx⟩
  have hdisjoint := hpair.forall (List.mem_range.2 (lt_size_of_mem_children hx))
    (List.mem_range.2 (lt_size_of_mem_children hy)) hne
  exact hdisjoint hx hy

theorem not_mem_children_of_root (h : Trees {} arena roots) {x root : NodeId}
    (hr : root ∈ roots) : root ∉ (arena.get x).children := by
  intro hc
  have hall : root ∈ arena.allChildren :=
    List.mem_flatMap.2 ⟨x, List.mem_range.2 (lt_size_of_mem_children hc), hc⟩
  exact (List.nodup_append.1 h.nodup).2.2 root hr root hall rfl

theorem lt_size_of_root (h : Trees {} arena roots) {root : NodeId} (hr : root ∈ roots) :
    root < arena.size :=
  List.mem_range.1 (h.perm.mem_iff.1 (List.mem_append_left _ hr))

end Trees

end Arena

/-- How the nodes of a document hang together: children are older than what they stand in, each
stands in one node only, and the node that a schema declares is its own and stands in none. -/
structure Document.Forest (d : Document) : Prop where
  child_lt : ∀ {x child : NodeId}, child ∈ (d.arena.get x).children → child < x
  parent_unique : ∀ {x y child : NodeId}, child ∈ (d.arena.get x).children →
    child ∈ (d.arena.get y).children → x = y
  root_lt : ∀ {name : String} {root : NodeId}, Assoc.get? d.schemas name = some root →
    root < d.arena.size
  root_not_child : ∀ {name : String} {root x : NodeId}, Assoc.get? d.schemas name = some root →
    root ∉ (d.arena.get x).children
  name_unique : ∀ {name other : String} {root : NodeId}, Assoc.get? d.schemas name = some root →
    Assoc.get? d.schemas other = some root → name = other

namespace Document

theorem trees_of_readLayout {version : Version} {root : Json} {d : Document}
    (h : readLayout version root = .ok d) : Arena.Trees {} d.arena d.roots := by
  have hplants : Building.Plants [] (do
      let schemas ← readSchemas (schemasOf root)
      pure (schemas, ← readPaths root)) fun read =>
        read.1.map Prod.snd ++ read.2.flatMap Operation.roots :=
    (plants_readSchemas (schemasOf root) []).bind fun schemas =>
      (plants_readPaths root _).bind fun ops => Building.Plants.pure (schemas, ops) rfl
  have hrun := hplants {} {} .none
  unfold readLayout at h
  simp only at h
  split at h
  · simp at h
  · next schemas operations arena hr =>
    cases h
    rw [show outcome _ ({} : Arena) = _ from hr] at hrun
    exact hrun

theorem trees_of_ofJson {root : Json} {d : Document} (h : ofJson root = .ok d) :
    Arena.Trees {} d.arena d.roots := by
  unfold ofJson at h
  split at h
  · split at h
    · exact trees_of_readLayout h
    · simp at h
  · split at h
    · exact trees_of_readLayout h
    · simp at h

theorem root_of_get? {d : Document} {name : String} {root : NodeId}
    (h : Assoc.get? d.schemas name = some root) : root ∈ d.roots :=
  List.mem_append_left _ (List.mem_map.2 ⟨_, Assoc.mem_of_get? h, rfl⟩)

/-- Every document that was read is a forest. -/
theorem forest_of_ofJson {root : Json} {d : Document} (h : ofJson root = .ok d) : d.Forest where
  child_lt := (trees_of_ofJson h).lt_of_mem_children
  parent_unique := (trees_of_ofJson h).eq_of_mem_children
  root_lt hn := (trees_of_ofJson h).lt_size_of_root (root_of_get? hn)
  root_not_child hn := (trees_of_ofJson h).not_mem_children_of_root (root_of_get? hn)
  name_unique {name other root} hn ho := by
    have hnodup : (d.schemas.map Prod.snd).Nodup :=
      (List.nodup_append.1 (List.nodup_append.1 (trees_of_ofJson h).nodup).1).1
    have hinj := List.inj_on_of_nodup_map hnodup (Assoc.mem_of_get? hn) (Assoc.mem_of_get? ho) rfl
    exact congrArg Prod.fst hinj

/-- The nodes of operations are apart from schemas: they declare none, and stand in no node. -/
theorem apart_of_ofJson {root : Json} {d : Document} (h : ofJson root = .ok d) {o : Operation}
    (ho : o ∈ d.operations) {id : NodeId} (hid : id ∈ o.roots) :
    (∀ name, Assoc.get? d.schemas name ≠ some id) ∧ ∀ x, id ∉ (d.arena.get x).children := by
  have hmem : id ∈ d.operations.flatMap Operation.roots := List.mem_flatMap.2 ⟨o, ho, hid⟩
  have hnodup := (List.nodup_append.1 (trees_of_ofJson h).nodup).1
  refine ⟨fun name hn => ?_, fun x =>
    (trees_of_ofJson h).not_mem_children_of_root (List.mem_append_right _ hmem)⟩
  have hschema : id ∈ d.schemas.map Prod.snd :=
    List.mem_map.2 ⟨(name, id), Assoc.mem_of_get? hn, rfl⟩
  exact (List.nodup_append.1 hnodup).2.2 id hschema id hmem rfl

end Document

/-- A node that stands in another one is there. -/
theorem Document.Forest.lt_size_of_child {d : Document} (hd : d.Forest) {x child : NodeId}
    (h : child ∈ (d.arena.get x).children) : child < d.arena.size :=
  Nat.lt_trans (hd.child_lt h) (Arena.lt_size_of_mem_children h)

/-- A forest in which the nodes of operations are there and apart from schemas. -/
structure Document.WellFormed (d : Document) : Prop where
  forest : d.Forest
  root_lt : ∀ o ∈ d.operations, ∀ id ∈ o.roots, id < d.arena.size
  apart : ∀ o ∈ d.operations, ∀ id ∈ o.roots,
    (∀ name, Assoc.get? d.schemas name ≠ some id) ∧ ∀ x, id ∉ (d.arena.get x).children

/-- Every document that was read is well-formed. -/
theorem Document.wellFormed_of_ofJson {root : Json} {d : Document} (h : ofJson root = .ok d) :
    d.WellFormed where
  forest := forest_of_ofJson h
  root_lt o ho _ hid := (trees_of_ofJson h).lt_size_of_root
    (List.mem_append_right _ (List.mem_flatMap.2 ⟨o, ho, hid⟩))
  apart _ ho _ hid := apart_of_ofJson h ho hid

end TypedClient
