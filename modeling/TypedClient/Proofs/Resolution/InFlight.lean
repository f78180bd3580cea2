import TypedClient.Proofs.Resolution.Identity
import TypedClient.Proofs.Resolution.Retried

/-! Resolving with the names in flight as part of the state. A name is put in flight before the node
of its schema is resolved and taken out after that, whether the node failed or not. So each call
ends with the names with which it began, and the path on which a node is resolved is what is in
flight. Seen from outside, nothing stays in flight, and a call that failed fails again. -/

namespace TypedClient

namespace Resolver

/-- A resolver with the names that are being resolved, outermost first. -/
structure Flight where
  names : List String := []
  resolver : Resolver := {}

/-- Steps of resolution that keep the names in flight as well. -/
abbrev Carrying := ExceptT Failure (StateM Flight)

instance : MonadStateOf Resolver Carrying where
  get := do pure (← getThe Flight).resolver
  set r := modifyThe Flight fun f => { f with resolver := r }
  modifyGet act := modifyGetThe Flight fun f =>
    let (a, r) := act f.resolver
    (a, { f with resolver := r })

variable {α β γ δ : Type} {d : Document} {names : List String} {name : String}

/-- Makes a call with a name in flight. The name is taken out again before a failure goes on. -/
def inFlight (name : String) (x : Carrying α) : Carrying α := do
  modifyThe Flight fun f => { f with names := f.names ++ [name] }
  let answer ← observing x
  modifyThe Flight fun f => { f with names := f.names.erase name }
  MonadExcept.ofExcept answer

mutual

/-- The type of a node, resolved on the path that is in flight, by calls nested at most so deep. -/
def nodeInFlight (d : Document) (beyond : Carrying TypeId) : Nat → NodeId → Carrying TypeId
  | 0, _ => beyond
  | depth + 1, id => do
    match Assoc.get? (← getThe Resolver).memo id with
    | some type => pure type
    | none =>
      let names := (← getThe Flight).names
      let type ← resolveKind {
        document := d
        path := names
        child := nodeInFlight d beyond depth
        reference := referenceInFlight d beyond depth } id
      remember id type
      pure type

/-- The type of a named schema, with the name in flight while its node is resolved. -/
def referenceInFlight (d : Document) (beyond : Carrying TypeId) : Nat → String → Carrying TypeId
  | 0, _ => beyond
  | depth + 1, name => do
    match Assoc.get? (← getThe Resolver).registry name with
    | some type => pure type
    | none =>
      let names := (← getThe Flight).names
      if names.contains name then cut names name
      else match Assoc.get? d.schemas name with
        | none => throw (.unresolvedReference name)
        | some node => do
          let type ← inFlight name (nodeInFlight d beyond depth node)
          applyName name node type
          register name type
          pure type

end

/-- The state after these calls by name, some of which may have failed. -/
def flown (d : Document) (beyond : Carrying TypeId) (depth : Nat) (calls : List String) : Flight :=
  calls.foldl (fun f name => (outcome (referenceInFlight d beyond depth name) f).2) {}

/-! ### Calls that end with the names with which they began -/

/-- With these names in flight `x` does what `y` does, and they are in flight afterwards. -/
def Balanced (names : List String) (R : α → β → Prop) (x : Carrying α) (y : Resolving β) : Prop :=
  ∀ r, (∃ a b r', R a b ∧ outcome x ⟨names, r⟩ = (.ok a, ⟨names, r'⟩) ∧
      outcome y r = (.ok b, r')) ∨
    ∃ e r', outcome x ⟨names, r⟩ = (.error e, ⟨names, r'⟩) ∧ outcome y r = (.error e, r')

theorem Balanced.pure {R : α → β → Prop} {a : α} {b : β} (h : R a b) :
    Balanced names R (Pure.pure a) (Pure.pure b) :=
  fun r => .inl ⟨a, b, r, h, rfl, rfl⟩

theorem Balanced.bind {R : α → β → Prop} {S : γ → δ → Prop} {x : Carrying α} {y : Resolving β}
    {f : α → Carrying γ} {g : β → Resolving δ} (h : Balanced names R x y)
    (hf : ∀ a b, R a b → Balanced names S (f a) (g b)) :
    Balanced names S (x >>= f) (y >>= g) := by
  intro r
  rw [outcome_bind, outcome_bind]
  rcases h r with ⟨a, b, r', hab, hx, hy⟩ | ⟨e, r', hx, hy⟩
  · rw [hx, hy]
    exact hf a b hab r'
  · rw [hx, hy]
    exact .inr ⟨e, r', rfl, rfl⟩

/-- What changes the resolver only. -/
theorem balanced_modifyGet (act : Resolver → α × Resolver) :
    Balanced names Eq (modifyGet act : Carrying α) (modifyGet act : Resolving α) :=
  fun r => .inl ⟨(act r).1, (act r).1, (act r).2, rfl, rfl, rfl⟩

theorem balanced_addType (t : TypeInfo) (nameable : Bool) (id : NodeId) :
    Balanced names Eq (addType t nameable id) (addType t nameable id) := by
  apply (balanced_modifyGet _).bind
  rintro type _ rfl
  cases nameable with
  | false => exact Balanced.pure rfl
  | true =>
    apply (balanced_modifyGet _).bind
    rintro _ _ rfl
    exact Balanced.pure rfl

/-- Resolving with names in flight. -/
def carrying (names : List String) : InStep Carrying Resolving where
  Exact := True
  Asks := Balanced names
  Ends := Balanced names Eq
  asks_pure := Balanced.pure
  asks_throw _ e r := .inr ⟨e, r, rfl, rfl⟩
  asks_bind := Balanced.bind
  asks_intrinsic _ := balanced_modifyGet _
  asks_typeInfo id r := .inl ⟨_, _, r, fun _ => rfl, rfl, rfl⟩
  ends_asks h := h
  ends_bind := Balanced.bind
  ends_add id h := by
    obtain ⟨rfl, rfl⟩ := h trivial
    exact balanced_addType _ _ id

theorem outcome_inFlight (name : String) (x : Carrying α) (f : Flight) :
    outcome (inFlight name x) f =
      ((outcome x { f with names := f.names ++ [name] }).1,
        { (outcome x { f with names := f.names ++ [name] }).2 with
          names := (outcome x { f with names := f.names ++ [name] }).2.names.erase name }) := by
  have hput : outcome (modifyThe Flight fun f => { f with names := f.names ++ [name] }) f =
      (.ok (), { f with names := f.names ++ [name] }) := rfl
  unfold inFlight
  rw [outcome_bind, hput]
  dsimp only
  rw [outcome_bind, outcome_observing]
  dsimp only
  rw [outcome_bind]
  exact outcome_ofExcept _ _

theorem Balanced.inFlight {x : Carrying α} {y : Resolving α} (hname : name ∉ names)
    (h : Balanced (names ++ [name]) Eq x y) : Balanced names Eq (inFlight name x) y := by
  have herase : (names ++ [name]).erase name = names := by
    rw [List.erase_append_right _ hname, List.erase_cons_head, List.append_nil]
  intro r
  rw [outcome_inFlight]
  rcases h r with ⟨a, b, r', hab, hx, hy⟩ | ⟨e, r', hx, hy⟩
  · rw [hx, hy]
    dsimp only
    rw [herase]
    exact .inl ⟨a, b, r', hab, rfl, rfl⟩
  · rw [hx, hy]
    dsimp only
    rw [herase]
    exact .inr ⟨e, r', rfl, rfl⟩

/-! ### Calls -/

variable (beyond : Carrying TypeId)

/-- Where a node is resolved with these names in flight. -/
def flightSite (d : Document) (beyond : Carrying TypeId) (depth : Nat) (names : List String) :
    Site Carrying :=
  ⟨d, names, nodeInFlight d beyond depth, referenceInFlight d beyond depth⟩

theorem outcome_nodeInFlight (depth : Nat) (id : NodeId) (r : Resolver) :
    outcome (nodeInFlight d beyond (depth + 1) id) ⟨names, r⟩ =
      outcome (match Assoc.get? r.memo id with
        | some type => pure type
        | none => do
          let type ← resolveKind (flightSite d beyond depth names) id
          remember id type
          pure type) ⟨names, r⟩ := by
  rw [nodeInFlight, outcome_bind]
  show outcome (match Assoc.get? r.memo id with
    | some type => pure type
    | none => _) _ = _
  cases Assoc.get? r.memo id with
  | some type => rfl
  | none => rfl

theorem outcome_referenceInFlight (depth : Nat) (name : String) (r : Resolver) :
    outcome (referenceInFlight d beyond (depth + 1) name) ⟨names, r⟩ =
      outcome (match Assoc.get? r.registry name with
        | some type => pure type
        | none =>
          if names.contains name then cut names name
          else match Assoc.get? d.schemas name with
            | none => throw (.unresolvedReference name)
            | some node => do
              let type ← inFlight name (nodeInFlight d beyond depth node)
              applyName name node type
              register name type
              pure type) ⟨names, r⟩ := by
  rw [referenceInFlight, outcome_bind]
  show outcome (match Assoc.get? r.registry name with
    | some type => pure type
    | none => _) _ = _
  cases Assoc.get? r.registry name with
  | some type => rfl
  | none => rfl

theorem balanced_applyName (name : String) (node : NodeId) (t : TypeId) :
    Balanced names Eq (applyName name node t) (applyName name node t) := by
  have hget : Balanced names Eq (get : Carrying Resolver) (get : Resolving Resolver) :=
    fun r => .inl ⟨r, r, r, rfl, rfl, rfl⟩
  apply hget.bind
  rintro r _ rfl
  split
  · split
    · exact (carrying names).asks_throw Eq _
    · exact balanced_modifyGet _
  · exact Balanced.pure rfl

section Outside

variable (hd : d.Forest)

include hd

/-- From the depth on at which resolution ends, it makes no difference where the names are kept. -/
theorem balanced_calls (depth : Nat) :
    (∀ names id, depthBelow d names + id + 2 ≤ depth →
      Balanced names Eq (nodeInFlight d beyond depth id) (resolveNode d names id)) ∧
    (∀ names name, depthBelow d names + 1 ≤ depth →
      Balanced names Eq (referenceInFlight d beyond depth name)
        (resolveReference d names name)) := by
  induction depth with
  | zero =>
    constructor
    · intro names id h
      exact absurd h (by omega)
    · intro names name h
      exact absurd h (by omega)
  | succ depth ih =>
    obtain ⟨ihNode, ihReference⟩ := ih
    constructor
    · intro names id h r
      have hkind : Balanced names Eq (resolveKind (flightSite d beyond depth names) id)
          (resolveKind (site d names) id) := by
        apply InStep.ends_kind (P := carrying names) (s := flightSite d beyond depth names)
        · intro c hc
          have hlt : c < id := hd.next_lt hc
          apply ihNode names c
          simp only [NodeId] at hlt h ⊢
          omega
        · intro name _
          exact ihReference names name (by omega)
      rw [outcome_nodeInFlight, resolveNode_eq hd, outcome_bind, outcome_get]
      dsimp only
      cases Assoc.get? r.memo id with
      | some type => exact Balanced.pure rfl r
      | none =>
        refine Balanced.bind hkind (fun type _ htype => ?_) r
        cases htype
        exact (balanced_modifyGet _).bind fun _ _ _ => Balanced.pure rfl
    · intro names name h r
      rw [outcome_referenceInFlight, resolveReference_eq, outcome_bind, outcome_get]
      dsimp only
      cases Assoc.get? r.registry name with
      | some type => exact Balanced.pure rfl r
      | none =>
        dsimp only
        split
        · exact Balanced.bind (balanced_modifyGet _) (fun _ _ _ => Balanced.pure rfl) r
        · next hname =>
          cases hn : Assoc.get? d.schemas name with
          | none => exact (carrying names).asks_throw Eq _ r
          | some node =>
            have hdepth := depthBelow_lt hname hn
            have hnode : Balanced names Eq (inFlight name (nodeInFlight d beyond depth node))
                (resolveNode d (names ++ [name]) node) :=
              (ihNode (names ++ [name]) node (by omega)).inFlight (by simpa using hname)
            refine Balanced.bind hnode (fun type _ htype => ?_) r
            cases htype
            apply (balanced_applyName name node type).bind
            rintro _ _ _
            exact (balanced_modifyGet _).bind fun _ _ _ => Balanced.pure rfl

/-! ### Calls from outside -/

omit hd in
theorem flown_concat (depth : Nat) (calls : List String) (name : String) :
    flown d beyond depth (calls ++ [name]) =
      (outcome (referenceInFlight d beyond depth name) (flown d beyond depth calls)).2 := by
  rw [flown, flown, List.foldl_append]
  rfl

/-- A call from outside leaves no name in flight, and does what it does without them. -/
theorem outcome_from_outside {depth : Nat} (hdepth : depthBelow d [] + 1 ≤ depth) (name : String)
    (r : Resolver) :
    outcome (referenceInFlight d beyond depth name) ⟨[], r⟩ =
      ((outcome (named d name) r).1, ⟨[], (outcome (named d name) r).2⟩) := by
  rcases (balanced_calls beyond hd depth).2 [] name hdepth r with
    ⟨t, _, r', rfl, hx, hy⟩ | ⟨e, r', hx, hy⟩
  · rw [hx, named, hy]
  · rw [hx, named, hy]

theorem flown_eq {depth : Nat} (hdepth : depthBelow d [] + 1 ≤ depth) (calls : List String) :
    flown d beyond depth calls = ⟨[], after d (calls.map .named)⟩ := by
  induction calls using List.reverseRecOn with
  | nil => rfl
  | append_singleton calls name ih =>
    rw [flown_concat, ih, outcome_from_outside beyond hd hdepth, List.map_append,
      List.map_singleton, after_concat, Call.run, outcome_map]

end Outside

/-- A call by name that fails, after any calls by name on one resolver, some of which may have
failed too: the name is not registered, no name is in flight any more, and the same call made at
once fails again, with the same failure, and changes nothing. -/
theorem failure_repeats {root : Json} (h : Document.ofJson root = .ok d) (calls : List String)
    (name : String) {e : Failure} {r' : Resolver}
    (hfail : outcome (named d name) (after d (calls.map .named)) = (.error e, r')) :
    Assoc.get? r'.registry name = none ∧
    outcome (named d name) r' = (.error e, r') ∧
    ∀ depth, depthBelow d [] + 1 ≤ depth →
      outcome (referenceInFlight d beyond depth name) (flown d beyond depth calls) =
        (.error e, ⟨[], r'⟩) ∧
      outcome (referenceInFlight d beyond depth name) ⟨[], r'⟩ = (.error e, ⟨[], r'⟩) := by
  have hd := Document.forest_of_ofJson h
  have hagain : outcome (named d name) r' = (.error e, r') :=
    (retries_reference hd [] name).fails hfail
  refine ⟨unregistered_of_error hd hfail, hagain, fun depth hdepth => ⟨?_, ?_⟩⟩
  · rw [flown_eq beyond hd hdepth, outcome_from_outside beyond hd hdepth, hfail]
  · rw [outcome_from_outside beyond hd hdepth, hagain]

/-- An owner that refers to itself, to a pet and to a home that does not exist. -/
def homeless : Json := .obj [("openapi", .str "3.0.0"), ("components", .obj [("schemas", .obj [
  ("Pet", .obj [("type", .str "object")]),
  ("Owner", .obj [("type", .str "object"), ("properties", .obj [
    ("self", .obj [("$ref", .str "#/components/schemas/Owner")]),
    ("pet", .obj [("$ref", .str "#/components/schemas/Pet")]),
    ("home", .obj [("$ref", .str "#/components/schemas/Home")])])])])])]

theorem failure_repeats_homeless :
    ∃ d r', Document.ofJson homeless = .ok d ∧
      outcome (named d "Owner") (after d [.named "Pet"]) =
        (.error (.unresolvedReference "Home"), r') ∧
      r'.cycles = [["Owner", "Owner"]] ∧ Assoc.get? r'.registry "Owner" = none ∧
      outcome (named d "Owner") r' = (.error (.unresolvedReference "Home"), r') ∧
      outcome (referenceInFlight d (throw (.unresolvedReference "")) (depthBelow d [] + 1) "Owner")
        (flown d (throw (.unresolvedReference "")) (depthBelow d [] + 1) ["Pet"]) =
        (.error (.unresolvedReference "Home"), ⟨[], r'⟩) := by
  have hrun : (Document.ofJson homeless).map (fun d =>
      (match outcome (named d "Owner") (after d [.named "Pet"]) with
        | (.error e, r') => some (e, r'.cycles)
        | (.ok _, _) => none)) =
      .ok (some (.unresolvedReference "Home", [["Owner", "Owner"]])) := by
    decide +kernel
  cases hd : Document.ofJson homeless with
  | error e => rw [hd] at hrun; cases hrun
  | ok d =>
    rw [hd] at hrun
    have hfound := Except.ok.inj hrun
    dsimp only at hfound
    rcases hfail : outcome (named d "Owner") (after d [.named "Pet"]) with ⟨e | t, r'⟩
    · rw [hfail] at hfound
      obtain ⟨rfl, hcycles⟩ := Prod.mk.inj (Option.some.inj hfound)
      obtain ⟨hnew, hagain, hcarried⟩ :=
        failure_repeats (throw (.unresolvedReference "")) hd ["Pet"] "Owner" hfail
      obtain ⟨hflight, -⟩ := hcarried _ (Nat.le_refl _)
      exact ⟨d, r', rfl, hfail, hcycles, hnew, hagain, hflight⟩
    · rw [hfail] at hfound
      cases hfound

end Resolver

end TypedClient
