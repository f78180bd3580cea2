import TypedClient.Proofs.Resolution.Reentry

/-! Calls in a row on one resolver. A named schema and a node keep the type that they were given
first. A name and the node that declares it have one type too, but for one order of events: when a
call for the node from outside comes back to the name by way of references, the node is resolved a
second time on the way, and the name is registered with the type of that time. -/

namespace TypedClient

open Relation

namespace Resolver

/-! ### Calls in a row -/

/-- A call from outside. -/
inductive Call where
  | all
  | named (name : String)
  | node (id : NodeId)

def Call.run (d : Document) : Call → Resolving (Option TypeId)
  | .all => (fun _ => none) <$> Resolver.all d
  | .named name => some <$> Resolver.named d name
  | .node id => some <$> Resolver.node d id

/-- The state after these calls, some of which may have failed. -/
def after (d : Document) (calls : List Call) : Resolver :=
  calls.foldl (fun r call => (outcome (call.run d) r).2) {}

/-- The type that a call gives from a state, if it gives one. -/
def answer? (d : Document) (r : Resolver) (call : Call) : Option TypeId :=
  (outcome (call.run d) r).1.toOption.join

/-- One of the calls is this one, and it gave this type. -/
def Gives (d : Document) (calls : List Call) (call : Call) (t : TypeId) : Prop :=
  ∃ before rest, calls = before ++ call :: rest ∧ answer? d (after d before) call = some t

/-- A call for the node that declares `name` registers the name on its way and gives another type
than `any`. -/
def ForksAt (d : Document) (r : Resolver) (name : String) (id : NodeId) : Prop :=
  Assoc.get? r.registry name = none ∧
    (Assoc.get? (outcome (Call.run d (.node id)) r).2.registry name).isSome ∧
    ∃ t, answer? d r (.node id) = some t ∧ t ≠ TypeGraph.any

/-- One of the calls does so. -/
def Forks (d : Document) (calls : List Call) (name : String) (id : NodeId) : Prop :=
  ∃ before rest, calls = before ++ .node id :: rest ∧ ForksAt d (after d before) name id

variable {d : Document} {r r' : Resolver} {id : NodeId} {name : String}

theorem after_concat (calls : List Call) (call : Call) :
    after d (calls ++ [call]) = (outcome (call.run d) (after d calls)).2 := by
  rw [after, after, List.foldl_append]
  rfl

/-! ### What a call keeps -/

/-- What calls in a row keep: the types of names and of nodes. -/
structure Keeps (r r' : Resolver) : Prop where
  bounded : r'.Bounded
  registry : ∀ {name t}, Assoc.get? r.registry name = some t → Assoc.get? r'.registry name = some t
  memo : ∀ {id t}, Assoc.get? r.memo id = some t → Assoc.get? r'.memo id = some t

theorem Keeps.refl (hb : r.Bounded) : Keeps r r := ⟨hb, fun h => h, fun h => h⟩

theorem Keeps.trans {r'' : Resolver} (h : Keeps r r') (h' : Keeps r' r'') : Keeps r r'' :=
  ⟨h'.bounded, fun ht => h'.registry (h.registry ht), fun ht => h'.memo (h.memo ht)⟩

theorem Leads.keeps {may : String → Prop} (h : Leads d may r r') (hb : r.Bounded) : Keeps r r' :=
  ⟨bounded_of_steps h.steps hb, (extends_of_steps h.steps).registry, h.memo⟩

theorem keeps_node (hd : d.Forest) (id : NodeId) (hb : r.Bounded) :
    Keeps r (outcome (node d id) r).2 := by
  rcases outcome_node hd id hb with ⟨t, hm, ho⟩ | ⟨hm, r', hl, ⟨e, ho⟩ | ⟨t, -, hs, -, ho⟩⟩
  · rw [ho]
    exact Keeps.refl hb
  · rw [ho]
    exact hl.keeps hb
  · rw [ho]
    obtain ⟨hb', hregistry, hmemo⟩ := hl.keeps hb
    refine ⟨hb'.remember id hs.bound, hregistry, fun {id' t'} ht => ?_⟩
    have hne : id ≠ id' := by
      rintro rfl
      rw [hm] at ht
      cases ht
    exact (Assoc.get?_put_of_ne hne ..).trans (hmemo ht)

/-! ### One call after the other -/

theorem outcome_run_node (id : NodeId) (r : Resolver) :
    (outcome (Call.run d (.node id)) r).2 = (outcome (node d id) r).2 := by
  rw [Call.run, outcome_map]

theorem join_map_some {x : Except Failure TypeId} {t : TypeId} :
    (x.map some).toOption.join = some t ↔ x = .ok t := by
  cases x with
  | error e =>
    constructor
    · intro h
      cases h
    · intro h
      cases h
  | ok u =>
    constructor
    · intro h
      exact congrArg Except.ok (Option.some.inj h)
    · intro h
      cases h
      rfl

theorem answer?_node {t : TypeId} :
    answer? d r (.node id) = some t ↔ (outcome (node d id) r).1 = .ok t := by
  rw [answer?, Call.run, outcome_map]
  exact join_map_some

theorem answer?_named {t : TypeId} :
    answer? d r (.named name) = some t ↔ (outcome (named d name) r).1 = .ok t := by
  rw [answer?, Call.run, outcome_map]
  exact join_map_some

theorem keeps_run (hd : d.Forest) (call : Call) (hb : r.Bounded) :
    Keeps r (outcome (call.run d) r).2 := by
  cases call with
  | all =>
    rw [Call.run, outcome_map]
    exact (resolves_all hd r hb trivial).1.keeps hb
  | named name =>
    rw [Call.run, outcome_map]
    exact (resolves_named hd name r hb trivial).1.keeps hb
  | node id =>
    rw [outcome_run_node]
    exact keeps_node hd id hb

theorem bounded_after (hd : d.Forest) (calls : List Call) : (after d calls).Bounded := by
  induction calls using List.reverseRecOn with
  | nil => exact bounded_initial
  | append_singleton calls call ih =>
    rw [after_concat]
    exact (keeps_run hd call ih).bounded

theorem keeps_after (hd : d.Forest) (before rest : List Call) :
    Keeps (after d before) (after d (before ++ rest)) := by
  induction rest using List.reverseRecOn with
  | nil =>
    rw [List.append_nil]
    exact Keeps.refl (bounded_after hd before)
  | append_singleton rest call ih =>
    rw [← List.append_assoc, after_concat]
    exact ih.trans (keeps_run hd call (bounded_after hd _))

/-- What one of the calls has reached is kept to the end. -/
theorem keeps_to_end (hd : d.Forest) {calls before rest : List Call} {call : Call}
    (h : calls = before ++ call :: rest) :
    Keeps (outcome (call.run d) (after d before)).2 (after d calls) := by
  have hsplit : calls = (before ++ [call]) ++ rest := by rw [h, List.append_assoc]; rfl
  rw [hsplit, ← after_concat]
  exact keeps_after hd _ rest

theorem registry_of_gives (hd : d.Forest) {calls : List Call} {t : TypeId}
    (h : Gives d calls (.named name) t) : Assoc.get? (after d calls).registry name = some t := by
  obtain ⟨before, rest, hsplit, ht⟩ := h
  have hspec := resolves_named hd name (after d before) (bounded_after hd before) trivial
  have hregistered := hspec.2 t (answer?_named.1 ht)
  refine (keeps_to_end hd hsplit).registry ?_
  rw [Call.run, outcome_map]
  exact hregistered

theorem memo_of_gives (hd : d.Forest) {calls : List Call} {t : TypeId}
    (h : Gives d calls (.node id) t) : Assoc.get? (after d calls).memo id = some t := by
  obtain ⟨before, rest, hsplit, ht⟩ := h
  refine (keeps_to_end hd hsplit).memo ?_
  rw [outcome_run_node]
  have hvalue := answer?_node.1 ht
  rcases outcome_node hd id (bounded_after hd before) with
    ⟨u, hm, ho⟩ | ⟨-, r', -, ⟨e, ho⟩ | ⟨u, -, -, -, ho⟩⟩
  · rw [ho] at hvalue ⊢
    cases hvalue
    exact hm
  · rw [ho] at hvalue
    cases hvalue
  · rw [ho] at hvalue ⊢
    cases hvalue
    exact Assoc.get?_put_self ..

/-! ### A name and its node -/

/-- The type of the name is that of its node. -/
def Linked (name : String) (id : NodeId) (r : Resolver) : Prop :=
  ∀ {t}, Assoc.get? r.registry name = some t → Assoc.get? r.memo id = some t

/-- The name and its node have two types. -/
def Parted (name : String) (id : NodeId) (r : Resolver) : Prop :=
  ∃ t u, Assoc.get? r.registry name = some t ∧ Assoc.get? r.memo id = some u ∧ t ≠ u

theorem Linked.step {may : String → Prop} (hn : Assoc.get? d.schemas name = some id)
    (h : Step d may r r') (hlinked : Linked name id r) : Linked name id r' := by
  intro t ht
  cases h with
  | types h =>
    obtain ⟨hmemo, hregistry, -⟩ := h.same
    rw [hmemo]
    exact hlinked (hregistry ▸ ht)
  | cut cycle _ _ => exact hlinked ht
  | remember x u _ hroot =>
    have hne : x ≠ id := by
      rintro rfl
      have hnone : Assoc.get? r.registry name = none := hroot name hn
      rw [hnone] at ht
      cases ht
    exact (Assoc.get?_put_of_ne hne ..).trans (hlinked ht)
  | register nm node u _ hnode _ hm =>
    rw [Assoc.get?_put] at ht
    split at ht
    · next heq =>
      cases ht
      rw [heq, hn] at hnode
      cases hnode
      exact hm
    · exact hlinked ht

theorem Linked.run (hd : d.Forest) (hn : Assoc.get? d.schemas name = some id) (call : Call)
    (hb : r.Bounded) (hlinked : Linked name id r)
    (hfork : call = .node id → ¬ ForksAt d r name id) :
    Linked name id (outcome (call.run d) r).2 := by
  cases call with
  | all =>
    rw [Call.run, outcome_map]
    exact invariant_of_steps (Linked.step hn) (resolves_all hd r hb trivial).1.steps hlinked
  | named other =>
    rw [Call.run, outcome_map]
    exact invariant_of_steps (Linked.step hn) (resolves_named hd other r hb trivial).1.steps hlinked
  | node x =>
    rw [outcome_run_node]
    rcases outcome_node hd x hb with ⟨u, -, ho⟩ | ⟨hm, r', hl, ⟨e, ho⟩ | ⟨u, -, -, -, ho⟩⟩
    · rw [ho]
      exact hlinked
    · rw [ho]
      exact invariant_of_steps (Linked.step hn) hl.steps hlinked
    · intro t ht
      by_cases hx : x = id
      · subst hx
        have hnew : Assoc.get? r.registry name = none := by
          cases hreg : Assoc.get? r.registry name with
          | none => rfl
          | some t =>
            have hlink := hlinked hreg
            rw [hm] at hlink
            cases hlink
        rw [ho] at ht
        have hany : u = TypeGraph.any := by
          by_contra hne
          refine hfork rfl ⟨hnew, ?_, u, answer?_node.2 (by rw [ho]), hne⟩
          rw [outcome_run_node, ho, ht]
          rfl
        rw [ho, (eq_iff_any hd hn hb hnew ho ht).2 hany]
        exact Assoc.get?_put_self ..
      · rw [ho] at ht ⊢
        have hbefore := invariant_of_steps (Linked.step hn) hl.steps hlinked ht
        exact (Assoc.get?_put_of_ne hx ..).trans hbefore

theorem ForksAt.parted (hd : d.Forest) (hn : Assoc.get? d.schemas name = some id) (hb : r.Bounded)
    (h : ForksAt d r name id) : Parted name id (outcome (Call.run d (.node id)) r).2 := by
  obtain ⟨hnew, hsome, u, hu, hne⟩ := h
  obtain ⟨t, ht⟩ := Option.isSome_iff_exists.1 hsome
  have hvalue := answer?_node.1 hu
  rw [outcome_run_node] at ht ⊢
  rcases outcome_node hd id hb with ⟨w, -, ho⟩ | ⟨-, r', -, ⟨e, ho⟩ | ⟨w, -, -, -, ho⟩⟩
  · rw [ho, hnew] at ht
    cases ht
  · rw [ho] at hvalue
    cases hvalue
  · rw [ho] at hvalue ht
    cases hvalue
    refine ⟨t, u, by rw [ho]; exact ht, ?_, fun heq => hne ((eq_iff_any hd hn hb hnew ho ht).1 heq)⟩
    rw [ho]
    exact Assoc.get?_put_self ..

theorem linked_after (hd : d.Forest) (hn : Assoc.get? d.schemas name = some id)
    (calls : List Call) (h : ¬ Forks d calls name id) : Linked name id (after d calls) := by
  induction calls using List.reverseRecOn with
  | nil =>
    intro t ht
    cases ht
  | append_singleton calls call ih =>
    rw [after_concat]
    refine Linked.run hd hn call (bounded_after hd calls) (ih ?_) ?_
    · rintro ⟨before, rest, hsplit, hfork⟩
      exact h ⟨before, rest ++ [call], by rw [hsplit, List.append_assoc]; rfl, hfork⟩
    · rintro rfl hfork
      exact h ⟨calls, [], rfl, hfork⟩

theorem parted_after (hd : d.Forest) (hn : Assoc.get? d.schemas name = some id)
    {calls : List Call} (h : Forks d calls name id) : Parted name id (after d calls) := by
  obtain ⟨before, rest, hsplit, hfork⟩ := h
  obtain ⟨t, u, ht, hu, hne⟩ := hfork.parted hd hn (bounded_after hd before)
  have hkeeps := keeps_to_end hd hsplit
  exact ⟨t, u, hkeeps.registry ht, hkeeps.memo hu, hne⟩

/-- A call for a node comes back to the name only where the schema is on a cycle. -/
theorem Forks.cyclic (hd : d.Forest) (hn : Assoc.get? d.schemas name = some id)
    {calls : List Call} (h : Forks d calls name id) : TransGen d.Follows name name := by
  obtain ⟨before, rest, -, hnew, hsome, -⟩ := h
  obtain ⟨t, ht⟩ := Option.isSome_iff_exists.1 hsome
  rw [outcome_run_node] at ht
  have hb := bounded_after hd before
  have hmeets : d.Meets id name := by
    by_contra hno
    rcases outcome_node hd id hb with ⟨w, -, ho⟩ | ⟨-, r', hl, ⟨e, ho⟩ | ⟨w, -, -, -, ho⟩⟩
    · rw [ho, hnew] at ht
      cases ht
    · rw [ho, registered_of_steps hl.steps hno, hnew] at ht
      cases ht
    · rw [ho] at ht
      simp only at ht
      rw [registered_of_steps hl.steps hno, hnew] at ht
      cases ht
  obtain ⟨node, first, hw, hrefers, hlead⟩ := hmeets
  exact .head' ⟨node, ⟨id, hn, hw⟩, hrefers⟩ hlead

/-- The calls on one resolver for a document that was read. All that give a type for one name give
the same one, and so do all for one node. Those for a name and for the node that declares it give
the same type if and only if no call for the node has come back to the name on its way and given
another type than `any`; that can happen to a schema on a cycle only. -/
theorem identity_exact {root : Json} (h : Document.ofJson root = .ok d) (calls : List Call) :
    (∀ name t u, Gives d calls (.named name) t → Gives d calls (.named name) u → t = u) ∧
    (∀ id t u, Gives d calls (.node id) t → Gives d calls (.node id) u → t = u) ∧
    ∀ name id, Assoc.get? d.schemas name = some id →
      (∀ t u, Gives d calls (.named name) t → Gives d calls (.node id) u →
        (t = u ↔ ¬ Forks d calls name id)) ∧
      (Forks d calls name id → TransGen d.Follows name name) := by
  have hd := Document.forest_of_ofJson h
  refine ⟨fun name t u ht hu => ?_, fun id t u ht hu => ?_, fun name id hn =>
    ⟨fun t u ht hu => ?_, fun hfork => hfork.cyclic hd hn⟩⟩
  · have htu := (registry_of_gives hd ht).symm.trans (registry_of_gives hd hu)
    exact Option.some.inj htu
  · have htu := (memo_of_gives hd ht).symm.trans (memo_of_gives hd hu)
    exact Option.some.inj htu
  · have hregistry := registry_of_gives hd ht
    have hmemo := memo_of_gives hd hu
    constructor
    · rintro rfl hfork
      obtain ⟨t', u', ht', hu', hne⟩ := parted_after hd hn hfork
      rw [hregistry] at ht'
      rw [hmemo] at hu'
      cases ht'
      cases hu'
      exact hne rfl
    · intro hfork
      have hlink := linked_after hd hn calls hfork hregistry
      rw [hmemo] at hlink
      exact (Option.some.inj hlink).symm

/-- A schema that has itself as a property. -/
def loop : Json := .obj [("openapi", .str "3.0.0"), ("components", .obj [("schemas", .obj [
  ("Node", .obj [("type", .str "object"), ("properties", .obj [
    ("next", .obj [("$ref", .str "#/components/schemas/Node")])])])])])]

theorem answers_loop :
    ∃ d, Document.ofJson loop = .ok d ∧ Assoc.get? d.schemas "Node" = some 1 ∧
      Gives d [.node 1, .named "Node"] (.node 1) 2 ∧
      Gives d [.node 1, .named "Node"] (.named "Node") 1 := by
  have hrun : (Document.ofJson loop).map (fun d => (Assoc.get? d.schemas "Node",
      answer? d (after d []) (.node 1), answer? d (after d [.node 1]) (.named "Node"))) =
      .ok (some 1, some 2, some 1) := by
    decide +kernel
  cases hd : Document.ofJson loop with
  | error e => rw [hd] at hrun; cases hrun
  | ok d =>
    rw [hd] at hrun
    obtain ⟨hroot, hanswers⟩ := Prod.mk.inj (Except.ok.inj hrun)
    obtain ⟨hnode, hname⟩ := Prod.mk.inj hanswers
    exact ⟨d, rfl, hroot, ⟨[], [.named "Node"], rfl, hnode⟩, ⟨[.node 1], [], rfl, hname⟩⟩

/-- A call for the node before one for the name: two types. -/
theorem name_and_node_differ :
    ¬ ∀ (root : Json) (d : Document), Document.ofJson root = .ok d →
      ∀ calls name id t u, Assoc.get? d.schemas name = some id →
        Gives d calls (.named name) t → Gives d calls (.node id) u → t = u := by
  intro hclaim
  obtain ⟨d, hd, hroot, hnode, hname⟩ := answers_loop
  exact absurd (hclaim loop d hd _ _ _ _ _ hroot hname hnode) (by decide)

theorem identity_exact_loop :
    ∃ d, Document.ofJson loop = .ok d ∧ Forks d [.node 1, .named "Node"] "Node" 1 ∧
      TransGen d.Follows "Node" "Node" := by
  obtain ⟨d, hd, hroot, hnode, hname⟩ := answers_loop
  obtain ⟨hiff, hcyclic⟩ := (identity_exact hd [.node 1, .named "Node"]).2.2 "Node" 1 hroot
  have hforks : Forks d [.node 1, .named "Node"] "Node" 1 := by
    by_contra hno
    exact absurd ((hiff 1 2 hname hnode).2 hno) (by decide)
  exact ⟨d, hd, hforks, hcyclic hforks⟩

end Resolver

end TypedClient
