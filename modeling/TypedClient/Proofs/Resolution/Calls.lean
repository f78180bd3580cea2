import TypedClient.Proofs.Resolution.Steps
import TypedClient.Proofs.Resolution.Unguarded

/-! The calls of a resolver as runs of steps. Whatever a call gives, a type or a failure, it changes
the state by steps only; when it gives a type, all that the type needs has been resolved. -/

namespace TypedClient

namespace Resolver

open Relation

variable {α β : Type} {d : Document} {may : String → Prop} {r r' : Resolver}

/-! ### Rules for calls -/

/-- From a state that satisfies `P`, a call takes steps, whether it gives a value or fails; a value
satisfies `Q` with the state that the call leaves. -/
def Resolves (d : Document) (may : String → Prop) (P : Resolver → Prop) (m : Resolving α)
    (Q : α → Resolver → Prop) : Prop :=
  ∀ r, r.Bounded → P r →
    Leads d may r (outcome m r).2 ∧ ∀ a, (outcome m r).1 = .ok a → Q a (outcome m r).2

namespace Resolves

variable {P P' F : Resolver → Prop} {m : Resolving α} {f : α → Resolving β}
  {Q Q' : α → Resolver → Prop} {S : β → Resolver → Prop}

theorem pure {a : α} (h : ∀ r, r.Bounded → P r → Q a r) :
    Resolves d may P (Pure.pure a) Q := by
  intro r hb hpre
  refine ⟨Leads.refl r, fun a' ha => ?_⟩
  cases ha
  exact h r hb hpre

theorem throw (e : Failure) : Resolves d may P (throw e : Resolving α) Q := by
  intro r _ _
  refine ⟨Leads.refl r, fun a ha => ?_⟩
  cases ha

theorem bind (hm : Resolves d may P m Q) (hf : ∀ a, Resolves d may (Q a) (f a) S) :
    Resolves d may P (m >>= f) S := by
  intro r hb hpre
  obtain ⟨hl, hmid⟩ := hm r hb hpre
  rw [outcome_bind]
  rcases ho : outcome m r with ⟨e | a, r'⟩
  · rw [ho] at hl
    refine ⟨hl, fun b hb' => ?_⟩
    cases hb'
  · rw [ho] at hl hmid
    obtain ⟨hl', hafter⟩ := hf a r' (bounded_of_steps hl.steps hb) (hmid a rfl)
    exact ⟨hl.trans hl', hafter⟩

theorem weaken (h : Resolves d may P m Q) (hpre : ∀ r, P' r → P r)
    (hpost : ∀ a r, r.Bounded → Q a r → Q' a r) : Resolves d may P' m Q' := by
  intro r hb hp
  obtain ⟨hl, ha⟩ := h r hb (hpre r hp)
  exact ⟨hl, fun a hok => hpost a _ (bounded_of_steps hl.steps hb) (ha a hok)⟩

theorem mono {may' : String → Prop} (hmay : ∀ name, may name → may' name)
    (h : Resolves d may P m Q) : Resolves d may' P m Q := by
  intro r hb hp
  obtain ⟨hl, ha⟩ := h r hb hp
  exact ⟨hl.mono hmay, ha⟩

/-- A condition that does not speak of the state may be taken out of it. -/
theorem of_fact {fact : Prop} (h : fact → Resolves d may P m Q) :
    Resolves d may (fun r => P r ∧ fact) m Q :=
  fun r hb hp => h hp.2 r hb hp.1

/-- What no call takes back holds after a call when it holds before. -/
theorem frame (hkept : ∀ {r r'}, Leads d may r r' → F r → F r')
    (h : Resolves d may P m Q) :
    Resolves d may (fun r => F r ∧ P r) m fun a r => F r ∧ Q a r := by
  intro r hb hp
  obtain ⟨hl, ha⟩ := h r hb hp.2
  exact ⟨hl, fun a hok => ⟨hkept hl hp.1, ha a hok⟩⟩

theorem map (g : α → β) (hm : Resolves d may P m fun a => S (g a)) :
    Resolves d may P (g <$> m) S := by
  rw [map_eq_pure_bind]
  exact hm.bind fun a => pure fun r _ h => h

end Resolves

/-! ### Nodes and types that have been reached -/

theorem Given.kept {u : TypeId} (h : Given d r u) (hl : Leads d may r r') : Given d r' u := by
  cases h with
  | any => exact .any
  | intrinsic h => exact .intrinsic ((extends_of_steps hl.steps).intrinsics h)
  | inner hc h => exact .inner hc (hl.memo h)

/-- The nodes have been resolved, and new types may refer to the types. -/
structure Reached (d : Document) (r : Resolver) (nodes : List NodeId) (types : List TypeId) :
    Prop where
  memo : ∀ c ∈ nodes, (Assoc.get? r.memo c).isSome
  given : ∀ u ∈ types, Given d r u

namespace Reached

variable {nodes nodes' : List NodeId} {types types' : List TypeId}

theorem nil (d : Document) (r : Resolver) : Reached d r [] [] :=
  ⟨fun _ h => absurd h List.not_mem_nil, fun _ h => absurd h List.not_mem_nil⟩

theorem single {c : NodeId} {t : TypeId} (hc : ¬ d.Declares c)
    (h : Assoc.get? r.memo c = some t) : Reached d r [c] [t] := by
  constructor
  · intro c' hc
    rw [List.mem_singleton.1 hc, h]
    rfl
  · intro u hu
    rw [List.mem_singleton.1 hu]
    exact .inner hc h

theorem kept (hl : Leads d may r r') (h : Reached d r nodes types) : Reached d r' nodes types :=
  ⟨fun c hc => (extends_of_steps hl.steps).memo (h.memo c hc), fun u hu => (h.given u hu).kept hl⟩

theorem append (h : Reached d r nodes types) (h' : Reached d r nodes' types') :
    Reached d r (nodes ++ nodes') (types ++ types') :=
  ⟨fun c hc => (List.mem_append.1 hc).elim (h.memo c) (h'.memo c),
    fun u hu => (List.mem_append.1 hu).elim (h.given u) (h'.given u)⟩

theorem of_subset (h : Reached d r nodes types) (hn : nodes' ⊆ nodes) (ht : types' ⊆ types) :
    Reached d r nodes' types' :=
  ⟨fun c hc => h.memo c (hn hc), fun u hu => h.given u (ht hu)⟩

theorem add_type (h : Reached d r nodes types) {u : TypeId} (hu : Given d r u) :
    Reached d r nodes (types ++ [u]) := by
  refine ⟨h.memo, fun v hv => ?_⟩
  rcases List.mem_append.1 hv with hv | hv
  · exact h.given v hv
  · rw [List.mem_singleton.1 hv]
    exact hu

end Reached

/-- A type that was made last of all, and takes the name of no other node. -/
structure FreshFor (r : Resolver) (node : NodeId) (t : TypeId) : Prop extends Fresh r t where
  own : ∀ other, Assoc.get? r.nameable t = some other → other = node

/-! ### Steps on the state -/

theorem resolves_insertType (t : TypeInfo) (node : NodeId) :
    Resolves d may (fun r => ∀ u ∈ t.references, Given d r u) (insertType t)
      fun id r => FreshFor r node id := by
  intro r hb hp
  refine ⟨Leads.types (.insert r t (fun u hu => (hp u hu).bound hb) hp), fun id hid => ?_⟩
  cases hid
  refine ⟨⟨?_, ?_, hb.memo, hb.registry, fun name hname => ?_⟩, fun other hother => ?_⟩
  · exact (TypeGraph.size_insert r.graph t).symm
  · exact (Nat.ne_of_lt hb.any).symm
  · exact absurd (hb.intrinsics hname) (Nat.lt_irrefl _)
  · exact absurd (hb.nameable hother) (Nat.lt_irrefl _)

theorem resolves_markNameable (id : TypeId) (node : NodeId) :
    Resolves d may (fun r => FreshFor r node id) (markNameable id node)
      fun _ r => FreshFor r node id := by
  intro r _ hp
  refine ⟨Leads.types (.mark r id node hp.toFresh), fun _ _ =>
    ⟨⟨hp.last, hp.ne_any, hp.memo, hp.registry, hp.intrinsics⟩, fun other hother => ?_⟩⟩
  exact (Option.some.inj ((Assoc.get?_put_self ..).symm.trans hother)).symm

theorem resolves_intrinsic (name : String) :
    Resolves d may (fun _ => True) (intrinsic name)
      fun t r => Assoc.get? r.graph.intrinsics name = some t := by
  intro r hb _
  refine ⟨Leads.types (.intrinsic r name), fun t ht => ?_⟩
  cases ht
  exact r.graph.get?_intrinsic name

theorem resolves_typeInfo {P : Resolver → Prop} (id : TypeId) :
    Resolves d may P (typeInfo id) fun _ => P := by
  intro r _ hp
  exact ⟨Leads.refl r, fun _ _ => hp⟩

end Resolver

end TypedClient
