import Mathlib.Logic.Relation
import TypedClient.Proofs.Document.Forest
import TypedClient.Proofs.Outcome
import TypedClient.Types.Resolver

/-! Where resolution goes. From a node it goes to nodes of the same schema only, which are older; a
reference among them is what leads to another schema. A node belongs to one schema at most, so the
references met in the schema of a name are told by the document alone. -/

namespace TypedClient

namespace Document

open Relation

variable (d : Document)

/-! ### The nodes that are resolved for a node -/

/-- The members of an `allOf` that are resolved: the only one, or the references among several. -/
def baseNodes : List NodeId → List NodeId
  | [m] => [m]
  | members => members.filter fun m => (d.arena.get m).kind.isReference

theorem baseNodes_cons_cons (m n : NodeId) (ms : List NodeId) :
    d.baseNodes (m :: n :: ms) =
      (m :: n :: ms).filter fun m => (d.arena.get m).kind.isReference := rfl

/-- The members of an `allOf` of several that are merged into what they stand in. -/
def mergedShapes : List NodeId → List ObjectShape
  | [_] => []
  | members => members.filterMap fun m =>
    match (d.arena.get m).kind with
    | .object shape => some shape
    | _ => none

/-- The node that is resolved to tell what family a generic type belongs to. -/
def definitionNodes (hints : TypeHints) : List NodeId :=
  if hints.isGenericTypeDefinition then [] else hints.genericTypeDefinition.toList

/-- The nodes that are resolved to make an object generic. -/
def genericNodes (hints : TypeHints) (shape : ObjectShape) : List NodeId :=
  if hints.isGenericType then definitionNodes hints ++ hints.genericArguments
  else match shape.additional with
    | some (.schema node) => [node]
    | _ => []

def objectNodes (hints : TypeHints) (shape : ObjectShape) : List NodeId :=
  d.baseNodes shape.allOf ++
    Assoc.values (Resolver.mergeProperties (d.mergedShapes shape.allOf ++ [shape])) ++
    genericNodes hints shape

/-- The members of a combination that say something. -/
def sayingMembers (members : List NodeId) : List NodeId :=
  members.filter fun m => !Resolver.isNullOnly (d.arena.get m)

def combinationNodes (hints : TypeHints) (how : Combination) (members : List NodeId) :
    List NodeId :=
  match d.sayingMembers members, how with
  | [], _ => []
  | [m], _ => [m]
  | members, .allOf => d.objectNodes hints { allOf := members }
  | _, _ => []

def kindNodes (hints : TypeHints) : SchemaKind → List NodeId
  | .object shape => d.objectNodes hints shape
  | .array items => items.toList
  | .combination how members => d.combinationNodes hints how members
  | _ => []

/-- The nodes that are resolved for a node before it is. -/
def next (id : NodeId) : List NodeId := d.kindNodes (d.arena.get id).hints (d.arena.get id).kind

/-- The nodes that stand in a node. -/
def Child (x y : NodeId) : Prop := y ∈ (d.arena.get x).children

/-- The nodes that resolving `x` goes to without following a reference. -/
def Within (x y : NodeId) : Prop := ReflTransGen (fun a b => b ∈ d.next a) x y

/-- `id` refers to the schema of that name. -/
def Refers (id : NodeId) (name : String) : Prop := (d.arena.get id).kind = .reference name

/-- `id` is a combination of which only the member `other` says something. -/
def StandsFor (id other : NodeId) : Prop :=
  ∃ how members, (d.arena.get id).kind = .combination how members ∧
    d.sayingMembers members = [other]

/-- Resolving the schema of that name goes to `id` without following a reference. -/
def InSchema (name : String) (id : NodeId) : Prop :=
  ∃ root, Assoc.get? d.schemas name = some root ∧ d.Within root id

/-- Resolving the schema `name` meets a reference to `other` before it follows any. -/
def Follows (name other : String) : Prop := ∃ id, d.InSchema name id ∧ d.Refers id other

/-- Whether the node declares a schema. -/
def Declares (id : NodeId) : Prop := ∃ name, Assoc.get? d.schemas name = some id

end Document

/-! ### What stands in an `allOf` -/

namespace Resolver

variable {m : Type → Type} {members : List NodeId}

theorem sortMembers_ok {s : Site m} {bases : List NodeId} {plain : List ObjectShape}
    (h : sortMembers s members = .ok (bases, plain)) :
    bases = members.filter (fun m => (s.document.arena.get m).kind.isReference) ∧
      plain = members.filterMap fun m =>
        match (s.document.arena.get m).kind with
        | .object shape => some shape
        | _ => none := by
  induction members generalizing bases plain with
  | nil =>
    cases h
    exact ⟨rfl, rfl⟩
  | cons m ms ih =>
    rw [sortMembers, Site.node] at h
    rw [List.filter_cons, List.filterMap_cons]
    split at h
    · next name hk =>
      rcases hs : sortMembers s ms with fault | ⟨bases', plain'⟩
      · rw [hs] at h; cases h
      · rw [hs] at h
        cases h
        obtain ⟨hb, hp⟩ := ih hs
        rw [hk]
        exact ⟨congrArg (m :: ·) hb, hp⟩
    · next shape hk =>
      split at h
      · rcases hs : sortMembers s ms with fault | ⟨bases', plain'⟩
        · rw [hs] at h; cases h
        · rw [hs] at h
          cases h
          obtain ⟨hb, hp⟩ := ih hs
          rw [hk]
          exact ⟨hb, congrArg (shape :: ·) hp⟩
      · cases h
    · cases h

/-- The objects that an `allOf` gives for merging are told by the document. -/
theorem resolveAllOf_merged {s : Site Resolving} {r t : Resolver} {base : Option TypeId}
    {merged : List ObjectShape}
    (h : outcome (resolveAllOf s members) r = (.ok (base, merged), t)) :
    merged = s.document.mergedShapes members := by
  unfold resolveAllOf at h
  unfold Document.mergedShapes
  split at h
  · cases h
    rfl
  · obtain ⟨type, u, -, h⟩ := outcome_bind_eq_ok.1 h
    cases h
    rfl
  · next _ hone =>
    split
    · exact absurd rfl (hone _)
    · split at h
      · cases h
      · next plain hs =>
        cases h
        exact (sortMembers_ok hs).2
      · next b plain hs =>
        obtain ⟨type, u, -, h⟩ := outcome_bind_eq_ok.1 h
        cases h
        exact (sortMembers_ok hs).2
      · cases h

end Resolver

/-! ### Going down -/

namespace Document

variable {d : Document}

theorem mergeProperties_eq (shapes : List ObjectShape) :
    Resolver.mergeProperties shapes = Assoc.ofPairs (shapes.flatMap ObjectShape.properties) := by
  suffices h : ∀ merged : Assoc String NodeId,
      shapes.foldl (fun merged shape => merged.putAll shape.properties) merged =
        Assoc.putAll merged (shapes.flatMap ObjectShape.properties) from h []
  induction shapes with
  | nil => exact fun _ => rfl
  | cons shape shapes ih =>
    intro merged
    rw [List.foldl_cons, ih, List.flatMap_cons, Assoc.putAll, Assoc.putAll, Assoc.putAll,
      List.foldl_append]

theorem mem_mergeProperties {shapes : List ObjectShape} {id : NodeId}
    (h : id ∈ Assoc.values (Resolver.mergeProperties shapes)) :
    ∃ shape ∈ shapes, id ∈ shape.properties.map Prod.snd := by
  rw [mergeProperties_eq] at h
  obtain ⟨p, hp, rfl⟩ := List.mem_map.1 ((Assoc.mem_values_putAll h).resolve_left List.not_mem_nil)
  obtain ⟨shape, hshape, hp⟩ := List.mem_flatMap.1 hp
  exact ⟨shape, hshape, List.mem_map_of_mem hp⟩

theorem mem_baseNodes {members : List NodeId} {id : NodeId} (h : id ∈ d.baseNodes members) :
    id ∈ members := by
  unfold baseNodes at h
  split at h
  · exact h
  · exact List.mem_of_mem_filter h

theorem mem_mergedShapes {members : List NodeId} {shape : ObjectShape}
    (h : shape ∈ d.mergedShapes members) :
    ∃ m ∈ members, (d.arena.get m).kind = .object shape := by
  unfold mergedShapes at h
  split at h
  · exact absurd h List.not_mem_nil
  · obtain ⟨m, hm, hs⟩ := List.mem_filterMap.1 h
    split at hs
    · next kind hk =>
      cases hs
      exact ⟨m, hm, hk⟩
    · cases hs

theorem child_of_property {x id : NodeId} {shape : ObjectShape}
    (hk : (d.arena.get x).kind = .object shape) (h : id ∈ shape.properties.map Prod.snd) :
    d.Child x id := by
  unfold Child SchemaNode.children
  rw [hk]
  exact List.mem_append_right _ (List.mem_append_left _ (List.mem_append_left _ h))

/-- What is resolved for an object stands in it, or in an object that is merged into it. -/
theorem child_of_mem_objectNodes {x id : NodeId} {shape : ObjectShape}
    (hmembers : ∀ m ∈ shape.allOf, d.Child x m)
    (hproperties : ∀ m ∈ shape.properties.map Prod.snd, d.Child x m)
    (hadditional : ∀ m, shape.additional = some (.schema m) → d.Child x m)
    (h : id ∈ d.objectNodes (d.arena.get x).hints shape) :
    d.Child x id ∨ ∃ m, d.Child x m ∧ d.Child m id ∧
      ∃ other, (d.arena.get m).kind = .object other := by
  unfold objectNodes at h
  rcases List.mem_append.1 h with h | h
  · rcases List.mem_append.1 h with h | h
    · exact .inl (hmembers id (mem_baseNodes h))
    · obtain ⟨other, ho, hid⟩ := mem_mergeProperties h
      rcases List.mem_append.1 ho with ho | ho
      · obtain ⟨m, hm, hk⟩ := mem_mergedShapes ho
        exact .inr ⟨m, hmembers m hm, child_of_property hk hid, other, hk⟩
      · rw [List.mem_singleton.1 ho] at hid
        exact .inl (hproperties id hid)
  · left
    unfold genericNodes at h
    split at h
    · refine List.mem_append_left _ (List.mem_append.2 ((List.mem_append.1 h).imp_left fun h => ?_))
      unfold definitionNodes at h
      split at h
      · exact absurd h List.not_mem_nil
      · exact h
    · split at h
      · next node hn =>
        rw [List.mem_singleton.1 h]
        exact hadditional node hn
      · exact absurd h List.not_mem_nil

theorem child_of_mem_next {x id : NodeId} (h : id ∈ d.next x) :
    d.Child x id ∨ ∃ m, d.Child x m ∧ d.Child m id ∧
      ∃ other, (d.arena.get m).kind = .object other := by
  have hchild : ∀ {m}, m ∈ (d.arena.get x).kind.children → d.Child x m :=
    fun hm => List.mem_append_right _ hm
  unfold next kindNodes at h
  split at h
  · next shape hk =>
    refine child_of_mem_objectNodes (fun m hm => hchild ?_) (fun m hm => child_of_property hk hm)
      (fun m hm => hchild ?_) h
    · rw [hk]
      exact List.mem_append_left _ (List.mem_append_right _ hm)
    · rw [hk, SchemaKind.children, hm]
      exact List.mem_append_right _ (List.mem_singleton.2 rfl)
  · next items hk =>
    left
    apply hchild
    rw [hk]
    exact h
  · next how members hk =>
    have hmembers : ∀ {m}, m ∈ d.sayingMembers members → d.Child x m := by
      intro m hm
      apply hchild
      rw [hk]
      exact List.mem_of_mem_filter hm
    unfold combinationNodes at h
    split at h
    · exact absurd h List.not_mem_nil
    · next m how hm =>
      left
      apply hmembers
      rw [hm]
      exact h
    · refine child_of_mem_objectNodes (fun m hm => hmembers hm) (fun m hm => ?_) (fun m hm => ?_) h
      · exact absurd hm List.not_mem_nil
      · cases hm
    · exact absurd h List.not_mem_nil
  · exact absurd h List.not_mem_nil

namespace Forest

open Relation

theorem next_lt (hd : d.Forest) {x id : NodeId} (h : id ∈ d.next x) : id < x := by
  rcases child_of_mem_next h with h | ⟨m, hm, h, -⟩
  · exact hd.child_lt h
  · exact Nat.lt_trans (hd.child_lt h) (hd.child_lt hm)

/-- A node that declares a schema is not resolved for another one. -/
theorem not_mem_next_of_root (hd : d.Forest) {name : String} {root x : NodeId}
    (hr : Assoc.get? d.schemas name = some root) : root ∉ d.next x := by
  intro h
  rcases child_of_mem_next h with h | ⟨m, -, h, -⟩
  · exact hd.root_not_child hr h
  · exact hd.root_not_child hr h

theorem not_declares_of_mem_next (hd : d.Forest) {x c : NodeId} (hc : c ∈ d.next x) :
    ¬ d.Declares c := by
  rintro ⟨name, hn⟩
  exact hd.not_mem_next_of_root hn hc

theorem reaches_of_within {x id : NodeId} (h : d.Within x id) : ReflTransGen d.Child x id := by
  induction h with
  | refl => exact .refl
  | tail _ hn ih =>
    rcases child_of_mem_next hn with hc | ⟨m, hm, hc, -⟩
    · exact ih.tail hc
    · exact (ih.tail hm).tail hc

theorem eq_of_reaches_root (hd : d.Forest) {name : String} {root x : NodeId}
    (hr : Assoc.get? d.schemas name = some root) (h : ReflTransGen d.Child x root) : x = root := by
  rcases h.cases_tail with h | ⟨y, -, h⟩
  · exact h.symm
  · exact absurd h (hd.root_not_child hr)

/-- A node belongs to one schema. -/
theorem inSchema_unique (hd : d.Forest) {name other : String} {id : NodeId}
    (hn : d.InSchema name id) (ho : d.InSchema other id) : name = other := by
  obtain ⟨root, hr, hroot⟩ := hn
  obtain ⟨top, ht, htop⟩ := ho
  have hunique : Relator.RightUnique (Function.swap d.Child) :=
    fun _ _ _ hx hy => hd.parent_unique hx hy
  have htotal := ReflTransGen.total_of_right_unique hunique
    (reflTransGen_swap.2 (reaches_of_within hroot)) (reflTransGen_swap.2 (reaches_of_within htop))
  have heq : root = top := by
    rcases htotal with h | h
    · exact (hd.eq_of_reaches_root hr (reflTransGen_swap.1 h)).symm
    · exact hd.eq_of_reaches_root ht (reflTransGen_swap.1 h)
  rw [← heq] at ht
  exact hd.name_unique hr ht

end Forest

end Document

end TypedClient
