import TypedClient.Proofs.Resolution.Attempts
import TypedClient.Proofs.Resolution.Reentry

/-! Where a call stands, from any state and whether it fails or not. A node has a type only if it
has a source, and a schema is registered only if its name can be read when a type takes it. The
schemas that nodes with types refer to are registered too, but for those that are being resolved and
those that were when a call failed. A call fails only for a schema from which references lead to one
at fault, and these are the schemas that it may leave behind without a type. -/

namespace TypedClient

open Relation

namespace Document

variable {d : Document} {name other : String}

/-- Nothing in the schema itself makes it fail: it is there, all of its nodes have sources, and its
name can be read if a type that is made for its node may take it. -/
def Intact (d : Document) (name : String) : Prop :=
  ∃ root, Assoc.get? d.schemas name = some root ∧
    (∀ id, d.Within root id → (d.source? id).isSome) ∧
    (d.adoption root ≠ .never → ∃ parsed, TypeName.parse name = .ok parsed)

/-- References lead from the schema to one that is not intact. -/
def Flawed (d : Document) (name : String) : Prop :=
  ∃ other, ReflTransGen d.Follows name other ∧ ¬ d.Intact other

theorem Flawed.head (h : d.Follows name other) (hf : d.Flawed other) : d.Flawed name := by
  obtain ⟨last, hlead, hlast⟩ := hf
  exact ⟨last, .head h hlead, hlast⟩

theorem Flawed.self (h : ¬ d.Intact name) : d.Flawed name := ⟨name, .refl, h⟩

end Document

namespace Resolver

variable {d : Document} {path : List String} {blamed blamed' : String → Prop} {r r' : Resolver}
  {id : NodeId} {name : String} {t : TypeId}

/-! ### What holds of every state -/

/-- What a resolver has, it has for what the document says: a node with a type has a source, and the
type that takes the name of a schema is marked for it; a name that was taken can be read. -/
structure Accounted (d : Document) (r : Resolver) : Prop where
  bounded : r.Bounded
  nameable : ∀ {t id}, Assoc.get? r.nameable t = some id → d.adoption id ≠ .never
  memo : ∀ {id t}, Assoc.get? r.memo id = some t → Obtained d id t r
  registry : ∀ {name t}, Assoc.get? r.registry name = some t →
    ∃ root, Assoc.get? d.schemas name = some root ∧
      (d.adoption root = .always → ∃ parsed, TypeName.parse name = .ok parsed)

/-- The schemas that the nodes with types refer to are registered, but for those on the path and
those that are blamed. -/
def Tied (d : Document) (path : List String) (blamed : String → Prop) (r : Resolver) : Prop :=
  ∀ {id name}, (Assoc.get? r.memo id).isSome → d.Refers id name →
    (Assoc.get? r.registry name).isSome ∨ name ∈ path ∨ blamed name

/-- Where a call stands on its path. -/
structure Standing (d : Document) (path : List String) (blamed : String → Prop) (r : Resolver) :
    Prop extends Accounted d r where
  tied : Tied d path blamed r

theorem standing_initial (d : Document) : Standing d [] (fun _ => False) {} where
  bounded := bounded_initial
  nameable h := by cases h
  memo h := by cases h
  registry h := by cases h
  tied h := by cases h

namespace Standing

theorem mono {path' : List String} (h : Standing d path blamed r)
    (hsub : ∀ name, name ∈ path ∨ blamed name → name ∈ path' ∨ blamed' name) :
    Standing d path' blamed' r where
  toAccounted := h.toAccounted
  tied hm hrefers := (h.tied hm hrefers).imp_right (hsub _)

/-- A cycle that is recorded changes nothing else. -/
theorem record (h : Standing d path blamed r) (cycles : List (List String)) :
    Standing d path blamed { r with cycles } where
  bounded := ⟨h.bounded.any, h.bounded.intrinsics, h.bounded.registry, h.bounded.memo,
    h.bounded.nameable⟩
  nameable := h.nameable
  memo hm := ⟨(h.memo hm).bound, (h.memo hm).source, (h.memo hm).marked⟩
  registry := h.registry
  tied := h.tied

theorem intrinsic (h : Standing d path blamed r) (name : String) :
    Standing d path blamed { r with graph := (r.graph.intrinsic name).2 } := by
  have hstep : TypeStep d r { r with graph := (r.graph.intrinsic name).2 } := .intrinsic r name
  refine ⟨⟨hstep.bounded h.bounded, h.nameable, fun {id t} hm => ?_, h.registry⟩, h.tied⟩
  exact ⟨Nat.lt_of_lt_of_le (h.memo hm).bound hstep.size_le, (h.memo hm).source,
    (h.memo hm).marked⟩

/-- A type that is added is younger than all that nodes and names have. -/
theorem adds (h : Standing d path blamed r) {made : TypeInfo} {nameable : Bool}
    (hallows : (d.adoption id).Allows nameable) :
    Standing d path blamed (r.adds id made nameable) := by
  have hsize : (r.adds id made nameable).graph.size = r.graph.size + 1 :=
    r.graph.size_insert made
  have hlt : ∀ {t}, t < r.graph.size → t < (r.adds id made nameable).graph.size :=
    fun ht => hsize ▸ Nat.lt_succ_of_lt ht
  have hmarked : ∀ {t x}, Assoc.get? (r.adds id made nameable).nameable t = some x →
      Assoc.get? r.nameable t = some x ∨ (t = r.graph.size ∧ x = id ∧ nameable = true) := by
    intro t x hx
    cases nameable with
    | false => exact .inl hx
    | true =>
      have hput : Assoc.get? (Assoc.put r.nameable r.graph.size id) t = some x := hx
      rw [Assoc.get?_put] at hput
      split at hput
      · next heq =>
        cases hput
        exact .inr ⟨heq.symm, rfl, rfl⟩
      · exact .inl hput
  have hkept : ∀ {t x}, t < r.graph.size → Assoc.get? r.nameable t = some x →
      Assoc.get? (r.adds id made nameable).nameable t = some x := by
    intro t x ht hx
    cases nameable with
    | false => exact hx
    | true => exact (Assoc.get?_put_of_ne (Nat.ne_of_gt ht) ..).trans hx
  refine ⟨⟨⟨hlt h.bounded.any, fun hi => hlt (h.bounded.intrinsics hi),
    fun hn => hlt (h.bounded.registry hn), fun hm => hlt (h.bounded.memo hm), fun hx => ?_⟩,
    fun hx => ?_, fun hm => ?_, h.registry⟩, h.tied⟩
  · rcases hmarked hx with hx | ⟨rfl, -, -⟩
    · exact hlt (h.bounded.nameable hx)
    · exact hsize ▸ Nat.lt_succ_self _
  · rcases hmarked hx with hx | ⟨-, rfl, rfl⟩
    · exact h.nameable hx
    · intro hnever
      rw [hnever] at hallows
      cases hallows
  · have hm' := h.memo hm
    exact ⟨hlt hm'.bound, hm'.source, fun halways => hkept hm'.bound (hm'.marked halways)⟩

theorem carried (d : Document) (path : List String) (blamed : String → Prop) :
    Carried d (Standing d path blamed) where
  bounded h := h.bounded
  intrinsic name h := h.intrinsic name
  adds h hallows := h.adds hallows

/-- A node that has been resolved is kept with its type. -/
theorem remember (h : Standing d path blamed r) (ht : Obtained d id t r)
    (hrefers : ∀ name, d.Refers id name →
      (Assoc.get? r.registry name).isSome ∨ name ∈ path) :
    Standing d path blamed { r with memo := Assoc.put r.memo id t } where
  bounded := h.bounded.remember id ht.bound
  nameable := h.nameable
  memo hm := by
    rw [Assoc.get?_put] at hm
    split at hm
    · next heq =>
      cases hm
      exact heq ▸ ⟨ht.bound, ht.source, ht.marked⟩
    · exact ⟨(h.memo hm).bound, (h.memo hm).source, (h.memo hm).marked⟩
  registry := h.registry
  tied {x name} hm hname := by
    rw [Assoc.get?_put] at hm
    split at hm
    · next heq => exact (hrefers name (heq ▸ hname)).imp_right .inl
    · exact h.tied hm hname

/-- Once a schema is registered its name leaves the path. -/
theorem register {root : NodeId} {graph : TypeGraph} (h : Standing d (path ++ [name]) blamed r)
    (hsize : graph.size = r.graph.size) (hintrinsics : graph.intrinsics = r.graph.intrinsics)
    (hn : Assoc.get? d.schemas name = some root) (ht : t < r.graph.size)
    (hread : d.adoption root = .always → ∃ parsed, TypeName.parse name = .ok parsed) :
    Standing d path blamed { r with graph, registry := Assoc.put r.registry name t } where
  bounded := by
    refine ⟨hsize ▸ h.bounded.any, fun hi => hsize ▸ h.bounded.intrinsics (hintrinsics ▸ hi),
      fun hreg => ?_, fun hm => hsize ▸ h.bounded.memo hm, fun hx => hsize ▸ h.bounded.nameable hx⟩
    rw [Assoc.get?_put] at hreg
    split at hreg
    · cases hreg
      exact hsize ▸ ht
    · exact hsize ▸ h.bounded.registry hreg
  nameable := h.nameable
  memo hm := ⟨hsize ▸ (h.memo hm).bound, (h.memo hm).source, (h.memo hm).marked⟩
  registry hreg := by
    rw [Assoc.get?_put] at hreg
    split at hreg
    · next heq => exact ⟨root, heq ▸ hn, heq ▸ hread⟩
    · exact h.registry hreg
  tied {id other} hm hrefers := by
    rw [Assoc.get?_put]
    split
    · exact .inl rfl
    · next hne =>
      refine (h.tied hm hrefers).imp_right (Or.imp_left fun hmem => ?_)
      exact (List.mem_append.1 hmem).resolve_right fun hlast =>
        hne (List.mem_singleton.1 hlast).symm

end Standing

/-! ### Calls -/

/-- A type takes the name of its schema if that can be read, and nothing is changed otherwise. -/
theorem outcome_settle_exact (name : String) (node : NodeId) (t : TypeId) (r : Resolver) :
    (Assoc.get? r.nameable t = some node ∧ (∀ parsed, TypeName.parse name ≠ .ok parsed) ∧
      ∃ e, outcome (settle name node t) r = (.error e, r)) ∨
    ((Assoc.get? r.nameable t = some node → ∃ parsed, TypeName.parse name = .ok parsed) ∧
      ∃ graph : TypeGraph, graph.size = r.graph.size ∧ graph.intrinsics = r.graph.intrinsics ∧
        outcome (settle name node t) r =
          (.ok t, { r with graph, registry := Assoc.put r.registry name t })) := by
  unfold settle applyName
  rw [outcome_bind, outcome_bind, outcome_get]
  dsimp only
  by_cases hmarked : Assoc.get? r.nameable t = some node
  · rw [if_pos hmarked]
    cases hp : TypeName.parse name with
    | error e => exact .inl ⟨hmarked, nofun, e, rfl⟩
    | ok parsed =>
      exact .inr ⟨fun _ => ⟨parsed, rfl⟩, r.graph.set t _, r.graph.size_set .., rfl, rfl⟩
  · rw [if_neg hmarked]
    exact .inr ⟨fun h => absurd h hmarked, r.graph, rfl, rfl, rfl⟩

/-- What a call for a named schema, or for a node in it, leaves when it fails: the schema is flawed,
and schemas at fault are blamed from then on. -/
def Fails (d : Document) (path : List String) (blamed : String → Prop) (name : String)
    (r : Resolver) : Prop :=
  Standing d path blamed r ∧ d.Flawed name

section Calls

variable (hd : d.Forest) {owner : String} (hsub : ∀ name, blamed name → blamed' name)

include hd hsub

/-- A node in a schema, when the calls that it makes leave what they should. -/
theorem tries_node_of_calls (hin : d.InSchema owner id)
    (hnext : ∀ c ∈ d.next id, Tries (Standing d path blamed) (Fails d path blamed' owner)
      (resolveNode d path c) fun t r => Assoc.get? r.memo c = some t)
    (href : ∀ name, d.Refers id name → Tries (Standing d path blamed) (Fails d path blamed' name)
      (resolveReference d path name) fun t r =>
        t < r.graph.size ∧ ((Assoc.get? r.registry name).isSome ∨ name ∈ path)) :
    Tries (Standing d path blamed) (Fails d path blamed' owner) (resolveNode d path id)
      fun t r => Assoc.get? r.memo id = some t := by
  obtain ⟨root, hroot, hwithin⟩ := hin
  have hkind : Tries (Standing d path blamed) (Fails d path blamed' owner)
      (resolveKind (site d path) id) (Obtained d id) := by
    apply tries_kind (s := site d path) (Standing.carried d path blamed)
    · intro c hc
      exact (hnext c hc).weaken (fun t r hr hm => (hr.memo hm).bound) fun r hr => hr
    · intro name hname
      exact (href name hname).weaken (fun t r _ ht => ht.1) fun r hr =>
        ⟨hr.1, hr.2.head ⟨id, ⟨root, hroot, hwithin⟩, hname⟩⟩
    · intro hnone r hr
      refine ⟨hr.mono fun other => Or.imp_right (hsub other), .self ?_⟩
      rintro ⟨root', hroot', hsource, -⟩
      rw [hroot] at hroot'
      cases hroot'
      have hsome := hsource id hwithin
      rw [show d.source? id = none from hnone] at hsome
      cases hsome
  have hrefers : ∀ {r t r'}, Standing d path blamed r →
      outcome (resolveKind (site d path) id) r = (.ok t, r') → ∀ name, d.Refers id name →
        (Assoc.get? r'.registry name).isSome ∨ name ∈ path := by
    intro r t r' hr ho name hname
    rw [resolveKind_of_refers path hname] at ho
    exact ((href name hname).gives hr ho).2.2
  constructor
  · intro r t r' hr ho
    rcases outcome_resolveNode hd path id r with
      ⟨u, hm, h⟩ | ⟨-, ⟨e, r₁, -, h⟩ | ⟨u, r₁, hmade, h⟩⟩
    · rw [h] at ho
      cases ho
      exact ⟨hr, hm⟩
    · rw [h] at ho
      cases ho
    · rw [h] at ho
      cases ho
      obtain ⟨hr₁, ht⟩ := hkind.gives hr hmade
      exact ⟨hr₁.remember ht (hrefers hr hmade), Assoc.get?_put_self ..⟩
  · intro r e r' hr ho
    rcases outcome_resolveNode hd path id r with
      ⟨u, -, h⟩ | ⟨-, ⟨e', r₁, hfail, h⟩ | ⟨u, r₁, -, h⟩⟩
    · rw [h] at ho
      cases ho
    · rw [h] at ho
      cases ho
      exact hkind.fails hr hfail
    · rw [h] at ho
      cases ho

omit hd in
/-- A named schema, when the call for its node leaves what it should. The name leaves the path with
the call, and is blamed when that fails. -/
theorem tries_root_of_call {root : NodeId} (hn : Assoc.get? d.schemas name = some root)
    (hblamed : d.Flawed name → blamed' name)
    (hnode : Tries (Standing d (path ++ [name]) blamed) (Fails d (path ++ [name]) blamed' name)
      (resolveNode d (path ++ [name]) root) fun t r => Assoc.get? r.memo root = some t) :
    Tries (Standing d path blamed) (Fails d path blamed' name)
      (resolveNode d (path ++ [name]) root >>= settle name root) fun t r =>
        t < r.graph.size ∧ ((Assoc.get? r.registry name).isSome ∨ name ∈ path) := by
  have henter : ∀ {r}, Standing d path blamed r → Standing d (path ++ [name]) blamed r :=
    fun hr => hr.mono fun other => Or.imp_left (List.mem_append_left _)
  have hleave : ∀ {r}, Fails d (path ++ [name]) blamed' name r → Fails d path blamed' name r := by
    rintro r ⟨hr, hflawed⟩
    refine ⟨hr.mono fun other => ?_, hflawed⟩
    rintro (hmem | hother)
    · rcases List.mem_append.1 hmem with hmem | hlast
      · exact .inl hmem
      · exact .inr (List.mem_singleton.1 hlast ▸ hblamed hflawed)
    · exact .inr hother
  constructor
  · intro r t r' hr ho
    obtain ⟨u, r₁, hcall, hsettle⟩ := outcome_bind_eq_ok.1 ho
    obtain ⟨hr₁, hm⟩ := hnode.gives (henter hr) hcall
    rcases outcome_settle_exact name root u r₁ with
      ⟨-, -, e, h⟩ | ⟨hread, graph, hsize, hintrinsics, h⟩
    · rw [h] at hsettle
      cases hsettle
    · rw [h] at hsettle
      cases hsettle
      refine ⟨hr₁.register hsize hintrinsics hn (hr₁.memo hm).bound fun halways =>
        hread ((hr₁.memo hm).marked halways), hsize ▸ (hr₁.memo hm).bound, .inl ?_⟩
      show (Assoc.get? (Assoc.put r₁.registry name t) name).isSome
      rw [Assoc.get?_put_self]
      rfl
  · intro r e r' hr ho
    rw [outcome_bind] at ho
    rcases hcall : outcome (resolveNode d (path ++ [name]) root) r with ⟨e' | u, r₁⟩
    · rw [hcall] at ho
      cases ho
      exact hleave (hnode.fails (henter hr) hcall)
    · rw [hcall] at ho
      obtain ⟨hr₁, -⟩ := hnode.gives (henter hr) hcall
      have hsettle : outcome (settle name root u) r₁ = (.error e, r') := ho
      rcases outcome_settle_exact name root u r₁ with
        ⟨hmarked, hunread, e', h⟩ | ⟨-, graph, -, -, h⟩
      · rw [h] at hsettle
        cases hsettle
        refine hleave ⟨hr₁.mono fun other => Or.imp_right (hsub other), .self ?_⟩
        rintro ⟨root', hroot', -, hread⟩
        rw [hn] at hroot'
        cases hroot'
        obtain ⟨parsed, hparsed⟩ := hread (hr₁.nameable hmarked)
        exact hunread parsed hparsed
      · rw [h] at hsettle
        cases hsettle

end Calls

mutual

theorem tries_node (hd : d.Forest) {path : List String} {id : NodeId} {owner : String}
    (hin : d.InSchema owner id) (hsub : ∀ name, blamed name → blamed' name)
    (hblamed : ∀ name, ReflTransGen d.Follows owner name → d.Flawed name → blamed' name) :
    Tries (Standing d path blamed) (Fails d path blamed' owner) (resolveNode d path id)
      fun t r => Assoc.get? r.memo id = some t := by
  apply tries_node_of_calls hd hsub hin
  · intro c hc
    obtain ⟨root, hroot, hwithin⟩ := hin
    exact tries_node hd ⟨root, hroot, hwithin.tail hc⟩ hsub hblamed
  · intro name hname
    exact tries_reference hd hsub fun other hlead => hblamed other (.head ⟨id, hin, hname⟩ hlead)
termination_by depthBelow d path + id + 1
decreasing_by
  · have := hd.next_lt hc
    simp only [NodeId] at *
    omega
  · omega

theorem tries_reference (hd : d.Forest) {path : List String} {name : String}
    (hsub : ∀ name, blamed name → blamed' name)
    (hblamed : ∀ other, ReflTransGen d.Follows name other → d.Flawed other → blamed' other) :
    Tries (Standing d path blamed) (Fails d path blamed' name) (resolveReference d path name)
      fun t r => t < r.graph.size ∧ ((Assoc.get? r.registry name).isSome ∨ name ∈ path) := by
  have hroot : ∀ {root}, name ∉ path → Assoc.get? d.schemas name = some root →
      Tries (Standing d path blamed) (Fails d path blamed' name)
        (resolveNode d (path ++ [name]) root >>= settle name root) fun t r =>
          t < r.graph.size ∧ ((Assoc.get? r.registry name).isSome ∨ name ∈ path) := by
    intro root hname hn
    have hdepth : depthBelow d (path ++ [name]) + root + 1 < depthBelow d path :=
      depthBelow_lt (by simpa using hname) hn
    exact tries_root_of_call hsub hn (hblamed name .refl)
      (tries_node hd ⟨root, hn, .refl⟩ hsub hblamed)
  constructor
  · intro r t r' hr ho
    rcases outcome_resolveReference d path name r with
      ⟨u, hreg, h⟩ | ⟨-, ⟨hmem, h⟩ | ⟨-, -, h⟩ | ⟨root, hname, hn, h⟩⟩
    · rw [h] at ho
      cases ho
      exact ⟨hr, hr.bounded.registry hreg, .inl (by rw [hreg]; rfl)⟩
    · rw [h] at ho
      cases ho
      exact ⟨hr.record _, hr.bounded.any, .inr hmem⟩
    · rw [h] at ho
      cases ho
    · rw [h] at ho
      exact (hroot hname hn).gives hr ho
  · intro r e r' hr ho
    rcases outcome_resolveReference d path name r with
      ⟨u, -, h⟩ | ⟨-, ⟨-, h⟩ | ⟨-, hnone, h⟩ | ⟨root, hname, hn, h⟩⟩
    · rw [h] at ho
      cases ho
    · rw [h] at ho
      cases ho
    · rw [h] at ho
      cases ho
      refine ⟨hr.mono fun other => Or.imp_right (hsub other), .self ?_⟩
      rintro ⟨root, hn, -⟩
      rw [hnone] at hn
      cases hn
    · rw [h] at ho
      exact (hroot hname hn).fails hr ho
termination_by depthBelow d path
decreasing_by omega

end

/-- A call from outside registers the schema, or fails because it is flawed. -/
theorem tries_named (hd : d.Forest) (hflawed : ∀ other, blamed other → d.Flawed other)
    (name : String) :
    Tries (Standing d [] blamed) (Fails d [] d.Flawed name) (named d name)
      fun _ r => (Assoc.get? r.registry name).isSome := by
  have hcall : Tries (Standing d [] blamed) (Fails d [] d.Flawed name) (resolveReference d [] name)
      _ := tries_reference hd hflawed fun _ _ h => h
  exact hcall.weaken (fun t r _ ht => ht.2.resolve_right List.not_mem_nil) fun _ h => h

end Resolver

end TypedClient
