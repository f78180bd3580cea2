import TypedClient.Proofs.Resolution.Requests
import TypedClient.Proofs.Resolution.Retried

/-! What every call leaves behind, from whatever state and on whatever path it is made, and whether
it fails or not. A relation of states that holds along the steps of resolution, those among them in
which nodes and names get their types, holds along every call (`GoingOn`). So a node that has a type
keeps it, and a node gets a type only where what is done for nodes of its kind has given one; what
holds of every node that is resolved holds of all nodes that have types, after any requests. -/

namespace TypedClient

namespace Resolver

variable {α β : Type} {d : Document} {r r' r'' : Resolver}

/-! ### What lasts -/

/-- The call leaves a state that is in this relation to the one before. -/
def Goes (G : Resolver → Resolver → Prop) (x : Resolving α) : Prop :=
  ∀ r, G r (outcome x r).2

/-- A relation in which states stay when types are added to the graph. -/
structure Going (G : Resolver → Resolver → Prop) : Prop where
  refl : ∀ r, G r r
  trans : ∀ {r r' r''}, G r r' → G r' r'' → G r r''
  intrinsic : ∀ name : String, Goes G (intrinsic name : Resolving TypeId)
  adds : ∀ (t : TypeInfo) (nameable : Bool) (id : NodeId), Goes G (addType t nameable id)

namespace Going

variable {G : Resolver → Resolver → Prop} (hG : Going G)

include hG

/-- The calls that a call is made of, one after the other. -/
theorem bind {x : Resolving α} {f : α → Resolving β} (hx : Goes G x)
    (hf : ∀ {r a r'}, outcome x r = (.ok a, r') → Goes G (f a)) : Goes G (x >>= f) := by
  intro r
  have hfirst := hx r
  rw [outcome_bind]
  rcases hrun : outcome x r with ⟨e | a, r₁⟩
  · rw [hrun] at hfirst
    exact hfirst
  · rw [hrun] at hfirst
    exact hG.trans hfirst (hf hrun r₁)

omit hG in
theorem map {x : Resolving α} (f : α → β) (hx : Goes G x) : Goes G (f <$> x) := by
  intro r
  rw [outcome_map]
  exact hx r

end Going

/-- Going on: what is asked for gives values of which more is known, and nothing has to be known of
the type that is made. -/
def Going.inStep {G : Resolver → Resolver → Prop} (hG : Going G) : InStep Resolving Resolving where
  Exact := False
  Asks R x _ := Goes G x ∧ ∀ {r a r'}, outcome x r = (.ok a, r') → ∃ b, R a b
  Ends x _ := Goes G x
  asks_pure h := ⟨hG.refl, fun ho => by cases ho; exact ⟨_, h⟩⟩
  asks_throw _ _ := ⟨hG.refl, fun ho => by cases ho⟩
  asks_bind hx hf := by
    refine ⟨hG.bind hx.1 fun ho => ?_, fun ho => ?_⟩
    · obtain ⟨b, hab⟩ := hx.2 ho
      exact (hf _ b hab).1
    · obtain ⟨a, r₁, hrun, ho⟩ := outcome_bind_eq_ok.1 ho
      obtain ⟨b, hab⟩ := hx.2 hrun
      exact (hf a b hab).2 ho
  asks_intrinsic name := ⟨hG.intrinsic name, fun _ => ⟨_, rfl⟩⟩
  asks_typeInfo id := ⟨hG.refl, fun {_ t _} _ => ⟨t, False.elim⟩⟩
  ends_asks h := h.1
  ends_bind hx hf := hG.bind hx.1 fun ho => by
    obtain ⟨b, hab⟩ := hx.2 ho
    exact hf _ b hab
  ends_add id _ := hG.adds _ _ id

namespace Going

variable {G : Resolver → Resolver → Prop} (hG : Going G)

theorem children {path : List String} {nodes : List NodeId}
    (h : ∀ c ∈ nodes, Goes G (resolveNode d path c)) :
    hG.inStep.Children (site d path) (resolveNode d path) nodes :=
  fun c hc => ⟨h c hc, fun _ => ⟨_, rfl⟩⟩

include hG

/-- What is done for a node, when the calls go on that it is made of. -/
theorem kind {path : List String} {id : NodeId}
    (hnodes : ∀ c ∈ d.next id, Goes G (resolveNode d path c))
    (hreferences : ∀ name, d.Refers id name → Goes G (resolveReference d path name)) :
    Goes G (resolveKind (site d path) id) := by
  have hends : ∀ name, d.Refers id name →
      hG.inStep.Ends (resolveReference d path name) (resolveReference d path name) := hreferences
  exact InStep.ends_kind (hG.children hnodes) hends

theorem request (hnamed : ∀ name, Goes G (named d name)) (request : Request)
    (hnode : ∀ id, request = .call (.node id) → Goes G (resolveNode d [] id)) :
    Goes G (request.run d) := by
  cases request with
  | builtin name => exact map _ (hG.intrinsic name)
  | call asked =>
    cases asked with
    | named name => exact map _ (hnamed name)
    | node id => exact map _ (hnode id rfl)
    | all =>
      refine map _ ?_
      unfold all
      generalize d.schemas = schemas
      induction schemas with
      | nil => exact hG.refl
      | cons p rest ih =>
        show Goes G (discard (named d p.1) >>= fun _ => rest.forM _)
        exact hG.bind (map _ (hnamed p.1)) fun _ => ih

end Going

/-! ### Nodes and names -/

/-- A relation in which states also stay when cycles are recorded and names get their types, and
when a node of `N` gets its type, as long as what is done for nodes of `K` leaves such states. -/
structure GoingOn (d : Document) (N K : NodeId → Prop) (G : Resolver → Resolver → Prop) : Prop
    extends Going G where
  cycles : ∀ (r : Resolver) (cycles : List (List String)), G r { r with cycles }
  settle : ∀ (name : String) (node : NodeId) (t : TypeId), Goes G (settle name node t)
  node : ∀ {path id}, N id → (∀ y, y ≤ id → K y → Goes G (resolveKind (site d path) y)) →
    Goes G (resolveNode d path id)
  next : ∀ {y c}, K y → c ∈ d.next y → N c
  root : ∀ {name root}, Assoc.get? d.schemas name = some root → N root

namespace GoingOn

variable {N K : NodeId → Prop} {G : Resolver → Resolver → Prop}

mutual

theorem goes_node (hG : GoingOn d N K G) (hd : d.Forest) (path : List String) (id : NodeId)
    (hid : N id) : Goes G (resolveNode d path id) :=
  hG.node hid fun _ _ hy => hG.toGoing.kind (fun c hc => goes_node hG hd path c (hG.next hy hc))
    fun name _ => goes_reference hG hd path name
termination_by depthBelow d path + id + 1
decreasing_by
  · have := hd.next_lt hc
    simp only [NodeId] at *
    omega
  · omega

theorem goes_reference (hG : GoingOn d N K G) (hd : d.Forest) (path : List String)
    (name : String) : Goes G (resolveReference d path name) := by
  intro r
  rcases outcome_resolveReference d path name r with
    ⟨t, -, ho⟩ | ⟨-, ⟨-, ho⟩ | ⟨-, -, ho⟩ | ⟨root, hname, hn, ho⟩⟩
  · rw [ho]
    exact hG.refl r
  · rw [ho]
    exact hG.cycles r _
  · rw [ho]
    exact hG.refl r
  · have hdepth : depthBelow d (path ++ [name]) + root + 1 < depthBelow d path :=
      depthBelow_lt (by simpa using hname) hn
    rw [ho]
    exact hG.bind (goes_node hG hd _ root (hG.root hn)) (fun _ => hG.settle name root _) r
termination_by depthBelow d path
decreasing_by all_goals omega

end

theorem goes_request (hG : GoingOn d N K G) (hd : d.Forest) (request : Request)
    (hnode : ∀ id, request = .call (.node id) → N id) : Goes G (request.run d) :=
  hG.toGoing.request (hG.goes_reference hd []) request
    fun id hid => hG.goes_node hd [] id (hnode id hid)

end GoingOn

/-! ### What has a type -/

variable {P : NodeId → TypeId → Prop}

/-- What has a type keeps it, and nodes get only types that satisfy `P`. -/
structure Advances (P : NodeId → TypeId → Prop) (r r' : Resolver) : Prop extends Recalls r r' where
  typed : ∀ {id t}, r'.Typed id t → r.Typed id t ∨ P id t

theorem going_advances (P : NodeId → TypeId → Prop) : Going (Advances P) where
  refl r := ⟨Recalls.refl r, fun h => .inl h⟩
  trans h h' := ⟨h.toRecalls.trans h'.toRecalls, fun ht => (h'.typed ht).elim h.typed .inr⟩
  intrinsic name r := ⟨⟨r.graph.intrinsics_intrinsic name, fun h => h⟩, fun h => .inl h⟩
  adds t nameable id r := by
    cases nameable with
    | true => exact ⟨⟨fun h => h, fun h => h⟩, fun h => .inl h⟩
    | false => exact ⟨⟨fun h => h, fun h => h⟩, fun h => .inl h⟩

/-- What is done for a node gives only types that satisfy `P`. -/
def Demands (d : Document) (P : NodeId → TypeId → Prop) : Prop :=
  ∀ {path id r t r'}, outcome (resolveKind (site d path) id) r = (.ok t, r') → P id t

/-- A node gets its type when what is done for it has given one. -/
theorem advances_of_kind (hd : d.Forest) (hP : Demands d P) {path : List String} {id : NodeId}
    (hkind : Goes (Advances P) (resolveKind (site d path) id)) :
    Goes (Advances P) (resolveNode d path id) := by
  intro r
  have hadvances := hkind r
  rcases outcome_resolveNode hd path id r with
    ⟨t, -, ho⟩ | ⟨hnew, ⟨e, r', hfail, ho⟩ | ⟨t, r', hmade, ho⟩⟩
  · rw [ho]
    exact (going_advances P).refl r
  · rw [hfail] at hadvances
    rw [ho]
    exact hadvances
  · rw [hmade] at hadvances
    rw [ho]
    refine ⟨⟨hadvances.intrinsics, fun {x u} hx => ?_⟩, fun {x u} hx => ?_⟩
    · have hne : id ≠ x := by
        rintro rfl
        rw [hnew] at hx
        cases hx
      exact (Assoc.get?_put_of_ne hne ..).trans (hadvances.memo hx)
    · rw [Typed, Assoc.get?_put] at hx
      split at hx
      · next heq =>
        cases hx
        exact .inr (heq ▸ hP hmade)
      · exact hadvances.typed hx

theorem goingOn_advances (hd : d.Forest) (hP : Demands d P) :
    GoingOn d (fun _ => True) (fun _ => True) (Advances P) where
  toGoing := going_advances P
  cycles _ _ := ⟨⟨fun h => h, fun h => h⟩, fun h => .inl h⟩
  settle name node t r := by
    rcases outcome_settle name node t r with ⟨e, ho⟩ | ⟨graph, hi, ho⟩
    · rw [ho]
      exact (going_advances P).refl r
    · rw [ho]
      refine ⟨⟨fun h => ?_, fun h => h⟩, fun h => .inl h⟩
      rwa [← hi] at h
  node _ hkind := advances_of_kind hd hP (hkind _ (Nat.le_refl _) trivial)
  next _ _ := trivial
  root _ := trivial

theorem advances_node (hd : d.Forest) (hP : Demands d P) (path : List String) (id : NodeId) :
    Goes (Advances P) (resolveNode d path id) :=
  (goingOn_advances hd hP).goes_node hd path id trivial

/-- After any requests, those that failed included, the nodes that have types satisfy what every
node does that is resolved. -/
theorem holds_of_typed (hd : d.Forest) (hP : Demands d P) {requests : List Request} {id : NodeId}
    {t : TypeId} (ht : (served d requests).Typed id t) : P id t := by
  induction requests using List.reverseRecOn generalizing id t with
  | nil => cases ht
  | append_singleton requests request ih =>
    rw [served_concat] at ht
    have hadvances :=
      (goingOn_advances hd hP).goes_request hd request (fun _ _ => trivial) (served d requests)
    exact (hadvances.typed ht).elim ih fun h => h

/-! ### What calls give -/

theorem keeping_recalls : Keeping Recalls where
  refl := Recalls.refl
  trans := Recalls.trans
  memo h := h.memo

/-- Whatever the state and the path, the call for a node gives its type, and what has a type keeps
it. -/
theorem supplies_node (hd : d.Forest) (path : List String) (nodes : List NodeId) :
    Supplying (fun _ => True) Recalls (site d path) nodes := by
  intro c _ r t r' _ ho
  have hadvances := advances_node (P := fun _ _ => True) hd (fun _ => trivial) path c r
  have hrun : outcome (resolveNode d path c) r = (.ok t, r') := ho
  rw [hrun] at hadvances
  exact ⟨trivial, hadvances.toRecalls, memo_of_resolveNode hd ho⟩

end Resolver

end TypedClient
