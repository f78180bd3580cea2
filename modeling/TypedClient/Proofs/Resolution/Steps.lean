import Mathlib.Data.List.Chain
import TypedClient.Proofs.Resolution.Walk

/-! The steps in which resolution changes its state, each under the condition under which it is
taken. Types are added and named, a cut is recorded as a cycle, and the type of a node or of a named
schema is kept. What is registered stays registered, and a node that has been resolved stays so. -/

namespace TypedClient

namespace TypeGraph

theorem size_insert (g : TypeGraph) (t : TypeInfo) : (g.insert t).2.size = g.size + 1 :=
  Array.size_push ..

theorem size_set (g : TypeGraph) (id : TypeId) (t : TypeInfo) : (g.set id t).size = g.size :=
  Array.size_setIfInBounds

/-- Looking a built-in type up adds it at the end when it is not there. -/
theorem intrinsic_cases (g : TypeGraph) (name : String) :
    (Assoc.get? g.intrinsics name = some (g.intrinsic name).1 ∧ (g.intrinsic name).2 = g) ∨
    ((g.intrinsic name).1 = g.size ∧ (g.intrinsic name).2.size = g.size + 1 ∧
      (g.intrinsic name).2.intrinsics = Assoc.put g.intrinsics name g.size) := by
  unfold intrinsic
  split
  · next id h => exact .inl ⟨h, rfl⟩
  · exact .inr ⟨rfl, size_insert g _, rfl⟩

/-- Built-in types that can be looked up stay so. -/
theorem intrinsics_intrinsic (g : TypeGraph) (added : String) {name : String} {id : TypeId}
    (h : Assoc.get? g.intrinsics name = some id) :
    Assoc.get? (g.intrinsic added).2.intrinsics name = some id := by
  unfold intrinsic
  split
  · exact h
  · next hnew =>
    have hne : added ≠ name := by
      rintro rfl
      simp [hnew] at h
    exact (Assoc.get?_put_of_ne hne ..).trans h

/-- A built-in type can be looked up from then on. -/
theorem get?_intrinsic (g : TypeGraph) (name : String) :
    Assoc.get? (g.intrinsic name).2.intrinsics name = some (g.intrinsic name).1 := by
  rcases g.intrinsic_cases name with ⟨h, hsame⟩ | ⟨h, -, hi⟩
  · rw [hsame]
    exact h
  · rw [hi, h]
    exact Assoc.get?_put_self ..

end TypeGraph

namespace Resolver

open Relation

/-! ### Single steps -/

/-- What new types refer to: `any`, types that are looked up by their names, and those of nodes that
declare no schema. -/
inductive Given (d : Document) (r : Resolver) : TypeId → Prop
  | any : Given d r TypeGraph.any
  | intrinsic {name : String} {u : TypeId} (h : Assoc.get? r.graph.intrinsics name = some u) :
      Given d r u
  | inner {c : NodeId} {u : TypeId} (hc : ¬ d.Declares c) (h : Assoc.get? r.memo c = some u) :
      Given d r u

/-- The youngest type of the graph, younger than all that was kept, registered or built in. -/
structure Fresh (r : Resolver) (t : TypeId) : Prop where
  last : t + 1 = r.graph.size
  ne_any : t ≠ TypeGraph.any
  memo : ∀ {id u}, Assoc.get? r.memo id = some u → u < t
  registry : ∀ {name u}, Assoc.get? r.registry name = some u → u < t
  intrinsics : ∀ name, Assoc.get? r.graph.intrinsics name ≠ some t

theorem Fresh.bound {r : Resolver} {t : TypeId} (h : Fresh r t) : t < r.graph.size :=
  Nat.lt_of_lt_of_eq (Nat.lt_succ_self t) h.last

/-- A step on the types and on the names that they may take. A type is named for the schema that it
was made for, before that schema is registered. -/
inductive TypeStep (d : Document) : Resolver → Resolver → Prop
  | insert (r : Resolver) (t : TypeInfo) (h : ∀ u ∈ t.references, u < r.graph.size)
      (hgiven : ∀ u ∈ t.references, Given d r u) :
      TypeStep d r { r with graph := (r.graph.insert t).2 }
  | intrinsic (r : Resolver) (name : String) :
      TypeStep d r { r with graph := (r.graph.intrinsic name).2 }
  | mark (r : Resolver) (id : TypeId) (node : NodeId) (h : Fresh r id) :
      TypeStep d r { r with nameable := Assoc.put r.nameable id node }
  | rename (r : Resolver) (id : TypeId) (node : NodeId) (schema : String) (name : TypeName)
      (h : Assoc.get? r.nameable id = some node) (hnode : Assoc.get? d.schemas schema = some node)
      (hnew : Assoc.get? r.registry schema = none) :
      TypeStep d r { r with graph := r.graph.set id { r.graph.get id with
        name := name.name, fullName := name.fullName, scope := name.scope, isBuiltin := false } }

/-- A path of names back to the first of them, along which each schema follows the next. -/
def IsCycle (d : Document) (cycle : List String) : Prop :=
  ∃ name path, cycle = name :: path ++ [name] ∧ (name :: path).Nodup ∧ cycle.IsChain d.Follows

/-- What holds of the type of a node when it is kept: all that the node needs has been resolved,
and a node that stands for another schema or node has its type. A reference that was cut stands
for `any` instead, and leads back to a schema from which the one it stands in is met. -/
structure Settled (d : Document) (r : Resolver) (id : NodeId) (t : TypeId) : Prop where
  next : ∀ c ∈ d.next id, (Assoc.get? r.memo c).isSome
  reference : ∀ name, d.Refers id name → Assoc.get? r.registry name = some t ∨
    (t = TypeGraph.any ∧ r.cycles ≠ [] ∧
      ∃ owner, d.InSchema owner id ∧ ReflTransGen d.Follows name owner)
  aliased : ∀ c, d.StandsFor id c → Assoc.get? r.memo c = some t
  bound : t < r.graph.size
  origin : Given d r t ∨ (∃ name, Assoc.get? r.registry name = some t) ∨
    ∀ other, Assoc.get? r.nameable t = some other → other = id

/-- A step of resolution that registers only names that `may` be registered. -/
inductive Step (d : Document) (may : String → Prop) : Resolver → Resolver → Prop
  | types {r r' : Resolver} (h : TypeStep d r r') : Step d may r r'
  | cut (r : Resolver) (cycle : List String) (h : IsCycle d cycle)
      (hnew : ∀ name ∈ cycle.getLast?, Assoc.get? r.registry name = none) :
      Step d may r { r with cycles := r.cycles ++ [cycle] }
  | remember (r : Resolver) (id : NodeId) (t : TypeId) (h : Settled d r id t)
      (hroot : ∀ name, Assoc.get? d.schemas name = some id → Assoc.get? r.registry name = none) :
      Step d may r { r with memo := Assoc.put r.memo id t }
  | register (r : Resolver) (name : String) (node : NodeId) (t : TypeId) (hmay : may name)
      (hnode : Assoc.get? d.schemas name = some node)
      (hnew : Assoc.get? r.registry name = none) (ht : Assoc.get? r.memo node = some t) :
      Step d may r { r with registry := Assoc.put r.registry name t }

/-- Every position of a type in the state is one of its graph. -/
structure Bounded (r : Resolver) : Prop where
  any : TypeGraph.any < r.graph.size
  intrinsics : ∀ {name t}, Assoc.get? r.graph.intrinsics name = some t → t < r.graph.size
  registry : ∀ {name t}, Assoc.get? r.registry name = some t → t < r.graph.size
  memo : ∀ {id t}, Assoc.get? r.memo id = some t → t < r.graph.size
  nameable : ∀ {t id}, Assoc.get? r.nameable t = some id → t < r.graph.size

variable {d : Document} {may : String → Prop} {r r' r'' : Resolver}

theorem bounded_initial : Bounded {} where
  any := Nat.zero_lt_one
  intrinsics := by
    intro name t h
    have hm := Assoc.mem_of_get? h
    cases List.mem_singleton.1 hm
    exact Nat.zero_lt_one
  registry := by
    intro name t h
    cases h
  memo := by
    intro id t h
    cases h
  nameable := by
    intro t id h
    cases h

theorem Given.bound {u : TypeId} (h : Given d r u) (hb : r.Bounded) : u < r.graph.size := by
  cases h with
  | any => exact hb.any
  | intrinsic h => exact hb.intrinsics h
  | inner _ h => exact hb.memo h

namespace TypeStep

theorem size_le (h : TypeStep d r r') : r.graph.size ≤ r'.graph.size := by
  cases h with
  | insert t =>
    have hsize := TypeGraph.size_insert r.graph t
    exact Nat.le_of_lt (Nat.lt_of_lt_of_eq (Nat.lt_succ_self _) hsize.symm)
  | intrinsic name =>
    rcases r.graph.intrinsic_cases name with ⟨-, h⟩ | ⟨-, h, -⟩
    · exact Nat.le_of_eq (congrArg TypeGraph.size h.symm)
    · exact Nat.le_of_lt (Nat.lt_of_lt_of_eq (Nat.lt_succ_self _) h.symm)
  | mark => exact Nat.le_refl _
  | rename => exact Nat.le_of_eq (TypeGraph.size_set ..).symm

theorem same (h : TypeStep d r r') :
    r'.memo = r.memo ∧ r'.registry = r.registry ∧ r'.cycles = r.cycles := by
  cases h <;> exact ⟨rfl, rfl, rfl⟩

theorem bounded (h : TypeStep d r r') (hb : r.Bounded) : r'.Bounded := by
  have hle := h.size_le
  obtain ⟨hmemo, hregistry, -⟩ := h.same
  refine ⟨Nat.lt_of_lt_of_le hb.any hle, fun {name t} ht => ?_,
    fun {name t} ht => Nat.lt_of_lt_of_le (hb.registry (hregistry ▸ ht)) hle,
    fun {id t} ht => Nat.lt_of_lt_of_le (hb.memo (hmemo ▸ ht)) hle, fun {t id} ht => ?_⟩
  · cases h with
    | insert | mark | rename => exact Nat.lt_of_lt_of_le (hb.intrinsics ht) hle
    | intrinsic looked =>
      rcases r.graph.intrinsic_cases looked with ⟨-, hg⟩ | ⟨-, hsize, hi⟩
      · simp only [hg] at ht ⊢
        exact hb.intrinsics ht
      · simp only [hi, Assoc.get?_put, hsize] at ht ⊢
        split at ht
        · cases ht
          exact Nat.lt_succ_self _
        · exact Nat.lt_succ_of_lt (hb.intrinsics ht)
  · cases h with
    | insert | intrinsic | rename => exact Nat.lt_of_lt_of_le (hb.nameable ht) hle
    | mark marked node hfresh =>
      rw [Assoc.get?_put] at ht
      split at ht
      · next heq => exact heq ▸ hfresh.bound
      · exact hb.nameable ht

/-- Types that can be looked up by their names stay so. -/
theorem intrinsics (h : TypeStep d r r') {name : String} {t : TypeId}
    (ht : Assoc.get? r.graph.intrinsics name = some t) :
    Assoc.get? r'.graph.intrinsics name = some t := by
  cases h with
  | insert | mark | rename => exact ht
  | intrinsic added => exact r.graph.intrinsics_intrinsic added ht

end TypeStep

theorem Bounded.remember (hb : r.Bounded) (id : NodeId) {t : TypeId} (ht : t < r.graph.size) :
    Bounded { r with memo := Assoc.put r.memo id t } := by
  refine ⟨hb.any, hb.intrinsics, hb.registry, fun {id' t'} ht' => ?_, hb.nameable⟩
  rw [Assoc.get?_put] at ht'
  split at ht'
  · cases ht'
    exact ht
  · exact hb.memo ht'

theorem Step.bounded (h : Step d may r r') (hb : r.Bounded) : r'.Bounded := by
  cases h with
  | types h => exact h.bounded hb
  | cut cycle _ _ => exact ⟨hb.any, hb.intrinsics, hb.registry, hb.memo, hb.nameable⟩
  | remember id t hs _ => exact hb.remember id hs.bound
  | register name node t _ _ _ hm =>
    refine ⟨hb.any, hb.intrinsics, fun {name' t'} ht => ?_, hb.memo, hb.nameable⟩
    rw [Assoc.get?_put] at ht
    split at ht
    · cases ht
      exact hb.memo hm
    · exact hb.registry ht

/-- What no step takes back: names keep their types, those of built-in types too, nodes that were
resolved stay resolved, and cycles are recorded at the end. -/
structure Extends (r r' : Resolver) : Prop where
  size : r.graph.size ≤ r'.graph.size
  intrinsics : ∀ {name t}, Assoc.get? r.graph.intrinsics name = some t →
    Assoc.get? r'.graph.intrinsics name = some t
  memo : ∀ {id}, (Assoc.get? r.memo id).isSome → (Assoc.get? r'.memo id).isSome
  registry : ∀ {name t}, Assoc.get? r.registry name = some t → Assoc.get? r'.registry name = some t
  cycles : r.cycles <+: r'.cycles

theorem Extends.refl (r : Resolver) : Extends r r :=
  ⟨Nat.le_refl _, id, id, id, List.prefix_refl _⟩

theorem Extends.trans (h : Extends r r') (h' : Extends r' r'') : Extends r r'' :=
  ⟨Nat.le_trans h.size h'.size, fun hi => h'.intrinsics (h.intrinsics hi),
    fun hm => h'.memo (h.memo hm),
    fun ht => h'.registry (h.registry ht), h.cycles.trans h'.cycles⟩

theorem Step.extends (h : Step d may r r') : Extends r r' := by
  cases h with
  | types h =>
    obtain ⟨hmemo, hregistry, hcycles⟩ := h.same
    exact ⟨h.size_le, h.intrinsics, fun hm => hmemo ▸ hm, fun ht => hregistry ▸ ht,
      hcycles ▸ List.prefix_refl _⟩
  | cut cycle _ _ => exact ⟨Nat.le_refl _, id, id, id, List.prefix_append ..⟩
  | remember id t _ _ =>
    refine ⟨Nat.le_refl _, fun hi => hi, fun {id'} hm => ?_, fun ht => ht, List.prefix_refl _⟩
    rw [Assoc.get?_put]
    split
    · rfl
    · exact hm
  | register name node t _ _ hnew _ =>
    refine ⟨Nat.le_refl _, fun hi => hi, fun hm => hm, fun {name' t'} ht => ?_,
      List.prefix_refl _⟩
    have hne : name ≠ name' := by
      rintro rfl
      rw [hnew] at ht
      cases ht
    exact (Assoc.get?_put_of_ne hne ..).trans ht

/-- A step registers no other names than it may. -/
theorem Step.registered (h : Step d may r r') {name : String} (hmay : ¬ may name) :
    Assoc.get? r'.registry name = Assoc.get? r.registry name := by
  cases h with
  | types h => rw [h.same.2.1]
  | cut | remember => rfl
  | register other node t hother _ _ _ =>
    have hne : other ≠ name := by
      rintro rfl
      exact hmay hother
    exact Assoc.get?_put_of_ne hne ..

theorem Step.mono {may' : String → Prop} (hmay : ∀ name, may name → may' name)
    (h : Step d may r r') : Step d may' r r' := by
  cases h with
  | types h => exact .types h
  | cut cycle h hnew => exact .cut _ cycle h hnew
  | remember id t h hroot => exact .remember _ id t h hroot
  | register name node t hm hnode hnew ht =>
    exact .register _ name node t (hmay name hm) hnode hnew ht

/-! ### Runs -/

/-- What a call does to the state: it takes steps, and nodes that were resolved before it keep
their types. -/
structure Leads (d : Document) (may : String → Prop) (r r' : Resolver) : Prop where
  steps : ReflTransGen (Step d may) r r'
  memo : ∀ {id t}, Assoc.get? r.memo id = some t → Assoc.get? r'.memo id = some t

namespace Leads

theorem refl (r : Resolver) : Leads d may r r := ⟨.refl, id⟩

theorem trans (h : Leads d may r r') (h' : Leads d may r' r'') : Leads d may r r'' :=
  ⟨h.steps.trans h'.steps, fun hm => h'.memo (h.memo hm)⟩

theorem mono {may' : String → Prop} (hmay : ∀ name, may name → may' name)
    (h : Leads d may r r') : Leads d may' r r' :=
  ⟨ReflTransGen.mono (fun _ _ => Step.mono hmay) _ _ h.steps, h.memo⟩

theorem types (h : TypeStep d r r') : Leads d may r r' :=
  ⟨.single (.types h), fun hm => h.same.1 ▸ hm⟩

end Leads

/-- What every step keeps, a run keeps. -/
theorem invariant_of_steps {I : Resolver → Prop}
    (hstep : ∀ {r r'}, Step d may r r' → I r → I r') (h : ReflTransGen (Step d may) r r')
    (hI : I r) : I r' := by
  induction h with
  | refl => exact hI
  | tail _ hs ih => exact hstep hs ih

theorem extends_of_steps (h : ReflTransGen (Step d may) r r') : Extends r r' :=
  invariant_of_steps (fun hs he => he.trans hs.extends) h (Extends.refl r)

theorem bounded_of_steps (h : ReflTransGen (Step d may) r r') (hb : r.Bounded) : r'.Bounded :=
  invariant_of_steps Step.bounded h hb

theorem registered_of_steps (h : ReflTransGen (Step d may) r r') {name : String}
    (hmay : ¬ may name) : Assoc.get? r'.registry name = Assoc.get? r.registry name :=
  invariant_of_steps (I := fun r' => Assoc.get? r'.registry name = Assoc.get? r.registry name)
    (fun hs ih => (hs.registered hmay).trans ih) h rfl

end Resolver

end TypedClient
