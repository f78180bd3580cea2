import TypedClient.Proofs.Resolution.Identity
import TypedClient.Proofs.Types.Order

/-! The graph of types after any requests to one resolver, those that failed included: calls for
schemas and for nodes, and built-in types by name. Each step keeps the graph ordered. What may be
renamed is never a built-in type that is looked up by name. So whatever type is handed out, writing
it and telling the models that it needs come to an end. -/

namespace TypedClient

open Relation

namespace Resolver

/-! ### Requests -/

/-- What is asked of a resolver from outside. -/
inductive Request where
  | call (asked : Call)
  | builtin (name : String)

def Request.run (d : Document) : Request → Resolving (Option TypeId)
  | .call asked => asked.run d
  | .builtin name => some <$> intrinsic name

/-- The state after these requests, some of which may have failed. -/
def served (d : Document) (requests : List Request) : Resolver :=
  requests.foldl (fun r request => (outcome (request.run d) r).2) {}

/-- One of the requests gave this type. -/
def HandsOut (d : Document) (requests : List Request) (id : TypeId) : Prop :=
  ∃ before request rest, requests = before ++ request :: rest ∧
    (outcome (request.run d) (served d before)).1 = .ok (some id)

variable {d : Document} {may : String → Prop} {r r' : Resolver}

/-! ### Steps -/

/-- The graph is ordered, and only types that are not looked up by name may take another one. -/
structure OrderedTypes (r : Resolver) : Prop where
  graph : r.graph.Ordered
  nameable : ∀ {id node}, Assoc.get? r.nameable id = some node →
    id < r.graph.size ∧ ∀ name, Assoc.get? r.graph.intrinsics name ≠ some id

theorem orderedTypes_initial : OrderedTypes {} where
  graph := TypeGraph.Ordered.initial
  nameable h := by cases h

theorem TypeStep.orderedTypes (h : TypeStep d r r') (ho : r.OrderedTypes) : r'.OrderedTypes := by
  have hsize := h.size_le
  cases h with
  | insert t ht _ =>
    exact ⟨ho.graph.insert ht, fun hn => ⟨Nat.lt_of_lt_of_le (ho.nameable hn).1 hsize,
      (ho.nameable hn).2⟩⟩
  | intrinsic name =>
    refine ⟨ho.graph.addIntrinsic name, fun {id node} hn => ?_⟩
    obtain ⟨hid, hfree⟩ := ho.nameable hn
    refine ⟨Nat.lt_of_lt_of_le hid hsize, fun other hother => ?_⟩
    rcases r.graph.intrinsic_cases name with ⟨-, hg⟩ | ⟨-, -, hi⟩
    · rw [hg] at hother
      exact hfree other hother
    · rw [hi, Assoc.get?_put] at hother
      split at hother
      · cases hother
        exact Nat.lt_irrefl _ hid
      · exact hfree other hother
  | mark id node hfresh =>
    refine ⟨ho.graph, fun {id' node'} hn => ?_⟩
    rw [Assoc.get?_put] at hn
    split at hn
    · next heq =>
      rw [← heq]
      exact ⟨hfresh.bound, hfresh.intrinsics⟩
    · exact ho.nameable hn
  | rename id node schema name hn =>
    refine ⟨ho.graph.rename (ho.nameable hn).2 rfl, fun hn' => ?_⟩
    exact ⟨Nat.lt_of_lt_of_le (ho.nameable hn').1 hsize, (ho.nameable hn').2⟩

theorem Step.orderedTypes (h : Step d may r r') (ho : r.OrderedTypes) : r'.OrderedTypes := by
  cases h with
  | types h => exact h.orderedTypes ho
  | cut | remember | register => exact ⟨ho.graph, ho.nameable⟩

/-! ### Requests in a row -/

/-- What holds of the state after every request. -/
structure Served (r : Resolver) : Prop where
  bounded : r.Bounded
  types : r.OrderedTypes

theorem Leads.served (h : Leads d may r r') (hs : Served r) : Served r' :=
  ⟨bounded_of_steps h.steps hs.bounded, invariant_of_steps Step.orderedTypes h.steps hs.types⟩

theorem served_call (hd : d.Forest) (call : Call) (hs : Served r) :
    Served (outcome (call.run d) r).2 := by
  have hkeeps := keeps_run hd call hs.bounded
  refine ⟨hkeeps.bounded, ?_⟩
  cases call with
  | all =>
    rw [Call.run, outcome_map]
    exact ((resolves_all hd r hs.bounded trivial).1.served hs).types
  | named name =>
    rw [Call.run, outcome_map]
    exact ((resolves_named hd name r hs.bounded trivial).1.served hs).types
  | node id =>
    rw [outcome_run_node]
    rcases outcome_node hd id hs.bounded with
      ⟨t, -, ho⟩ | ⟨-, r', hl, ⟨e, ho⟩ | ⟨t, -, -, -, ho⟩⟩
    · rw [ho]
      exact hs.types
    · rw [ho]
      exact (hl.served hs).types
    · rw [ho]
      exact ⟨(hl.served hs).types.graph, (hl.served hs).types.nameable⟩

theorem served_request (hd : d.Forest) (request : Request) (hs : Served r) :
    Served (outcome (request.run d) r).2 := by
  cases request with
  | call asked => exact served_call hd asked hs
  | builtin name =>
    rw [Request.run, outcome_map]
    have hstep : Leads d (fun _ => True) r _ := Leads.types (.intrinsic r name)
    exact hstep.served hs

theorem served_concat (requests : List Request) (request : Request) :
    served d (requests ++ [request]) = (outcome (request.run d) (served d requests)).2 := by
  rw [served, served, List.foldl_append]
  rfl

theorem served_all (hd : d.Forest) (requests : List Request) : Served (served d requests) := by
  induction requests using List.reverseRecOn with
  | nil => exact ⟨bounded_initial, orderedTypes_initial⟩
  | append_singleton requests request ih =>
    rw [served_concat]
    exact served_request hd request ih

/-! ### What is handed out -/

theorem size_le_request (hd : d.Forest) (request : Request) (hs : Served r) :
    r.graph.size ≤ (outcome (request.run d) r).2.graph.size := by
  cases request with
  | builtin name =>
    rw [Request.run, outcome_map]
    have hstep : TypeStep d r _ := .intrinsic r name
    exact hstep.size_le
  | call asked =>
    rw [Request.run]
    cases asked with
    | all =>
      rw [Call.run, outcome_map]
      exact (extends_of_steps (resolves_all hd r hs.bounded trivial).1.steps).size
    | named name =>
      rw [Call.run, outcome_map]
      exact (extends_of_steps (resolves_named hd name r hs.bounded trivial).1.steps).size
    | node id =>
      rw [outcome_run_node]
      rcases outcome_node hd id hs.bounded with
        ⟨t, -, ho⟩ | ⟨-, r', hl, ⟨e, ho⟩ | ⟨t, -, -, -, ho⟩⟩
      · rw [ho]
      · rw [ho]
        exact (extends_of_steps hl.steps).size
      · rw [ho]
        exact (extends_of_steps hl.steps).size

theorem size_le_served (hd : d.Forest) (before rest : List Request) :
    (served d before).graph.size ≤ (served d (before ++ rest)).graph.size := by
  induction rest using List.reverseRecOn with
  | nil => rw [List.append_nil]
  | append_singleton rest request ih =>
    rw [← List.append_assoc, served_concat]
    exact Nat.le_trans ih (size_le_request hd request (served_all hd _))

theorem lt_size_of_answer (hd : d.Forest) (request : Request) (hs : Served r) {id : TypeId}
    (h : (outcome (request.run d) r).1 = .ok (some id)) :
    id < (outcome (request.run d) r).2.graph.size := by
  cases request with
  | builtin name =>
    rw [Request.run, outcome_map] at h ⊢
    have hspec : Resolves d (fun _ => True) _ _ _ := resolves_intrinsic name
    obtain ⟨-, hok⟩ := hspec r hs.bounded trivial
    have hb := (served_request hd (.builtin name) hs).bounded
    rw [Request.run, outcome_map] at hb
    refine hb.intrinsics (hok id ?_)
    cases ho : (outcome (intrinsic name) r).1 with
    | error e => rw [ho] at h; cases h
    | ok t => rw [ho] at h; cases h; rfl
  | call asked =>
    have hb := (served_call hd asked hs).bounded
    have hanswer : answer? d r asked = some id := by
      rw [answer?, show (outcome (asked.run d) r).1 = _ from h]
      rfl
    cases asked with
    | all =>
      rw [answer?, Call.run, outcome_map] at hanswer
      cases ho : (outcome (all d) r).1 with
      | error e => rw [ho] at hanswer; cases hanswer
      | ok t => rw [ho] at hanswer; cases hanswer
    | named name =>
      rw [Request.run, Call.run, outcome_map] at *
      exact hb.registry ((resolves_named hd name r hs.bounded trivial).2 id
        (answer?_named.1 hanswer))
    | node node =>
      have hvalue := answer?_node.1 hanswer
      rw [Request.run, outcome_run_node]
      rw [outcome_run_node] at hb
      rcases outcome_node hd node hs.bounded with
        ⟨t, hm, ho⟩ | ⟨-, r', hl, ⟨e, ho⟩ | ⟨t, -, hset, -, ho⟩⟩
      · rw [ho] at hvalue ⊢
        cases hvalue
        exact hs.bounded.memo hm
      · rw [ho] at hvalue
        cases hvalue
      · rw [ho] at hvalue ⊢
        cases hvalue
        exact hset.bound

/-- The graph of types after any requests for a document that was read, whether they failed or not.
Types refer to older types only; names and nodes have types of the graph; different names of
built-in types stand for different types, each built in and of that name; the first type is `any`.
What was handed out is in the graph, and there each type is written, and tells the models that it
needs, in exactly one way, without ever looking beyond the graph. -/
theorem served_ordered {root : Json} (h : Document.ofJson root = .ok d)
    (requests : List Request) :
    (∀ id t, (served d requests).graph.get? id = some t → ∀ u ∈ t.references, u < id) ∧
    (∀ name id, Assoc.get? (served d requests).registry name = some id →
      id < (served d requests).graph.size) ∧
    (∀ node id, Assoc.get? (served d requests).memo node = some id →
      id < (served d requests).graph.size) ∧
    (∀ name id, Assoc.get? (served d requests).graph.intrinsics name = some id →
      (∃ t, (served d requests).graph.get? id = some t ∧ t.isBuiltin = true ∧ t.name = name) ∧
      ∀ other, Assoc.get? (served d requests).graph.intrinsics other = some id → other = name) ∧
    ((served d requests).graph.get? 0 = some TypeGraph.anyType ∧
      Assoc.get? (served d requests).graph.intrinsics TypeGraph.anyName = some 0) ∧
    (∀ id, HandsOut d requests id → id < (served d requests).graph.size) ∧
    ∀ id < (served d requests).graph.size,
      (∀ s, (served d requests).graph.Spells id s ↔ s = (served d requests).graph.spell id) ∧
      ∀ ids, (served d requests).graph.Needs id ids ↔
        ids = (served d requests).graph.dependencies id := by
  have hd := Document.forest_of_ofJson h
  have hs := served_all hd requests
  have hg := hs.types.graph
  refine ⟨fun id t => hg.older, fun name id => hs.bounded.registry, fun node id => hs.bounded.memo,
    fun name id hn => ⟨⟨_, hg.intrinsic hn, rfl, rfl⟩,
      fun other ho => hg.intrinsic_injective ho hn⟩,
    hg.any, ?_,
    fun id hid => ⟨hg.spells_iff hid, hg.needs_iff hid⟩⟩
  rintro id ⟨before, request, rest, hsplit, hanswer⟩
  have hsame : requests = (before ++ [request]) ++ rest := by
    rw [hsplit, List.append_assoc]
    rfl
  have hlt := lt_size_of_answer hd request (served_all hd before) hanswer
  rw [← served_concat] at hlt
  rw [hsame]
  exact Nat.lt_of_lt_of_le hlt (size_le_served hd _ rest)

/-- A call that fails, one that succeeds, and a built-in type. -/
def loopRequests : List Request :=
  [.call (.named "Missing"), .call (.named "Node"), .builtin "string"]

theorem served_ordered_loop :
    ∃ d, Document.ofJson loop = .ok d ∧ HandsOut d loopRequests 1 ∧
      (served d loopRequests).graph.Spells 1 "Node" ∧
      (served d loopRequests).graph.Needs 1 [] := by
  have hrun : (Document.ofJson loop).map (fun d =>
      (match (outcome (Request.run d (.call (.named "Node")))
          (served d [.call (.named "Missing")])).1 with
        | .ok answer => answer
        | .error _ => none,
      (served d loopRequests).graph.spell 1, (served d loopRequests).graph.dependencies 1)) =
      .ok (some 1, "Node", []) := by
    decide +kernel
  cases hd : Document.ofJson loop with
  | error e => rw [hd] at hrun; cases hrun
  | ok d =>
    rw [hd] at hrun
    obtain ⟨hanswer, hrest⟩ := Prod.mk.inj (Except.ok.inj hrun)
    obtain ⟨hspell, hneeds⟩ := Prod.mk.inj hrest
    have hout : HandsOut d loopRequests 1 := by
      refine ⟨[.call (.named "Missing")], _, [.builtin "string"], rfl, ?_⟩
      split at hanswer
      · next answer ho => rw [ho, hanswer]
      · cases hanswer
    obtain ⟨-, -, -, -, -, hbound, hexact⟩ := served_ordered hd loopRequests
    obtain ⟨hspells, hmodels⟩ := hexact 1 (hbound 1 hout)
    exact ⟨d, rfl, hout, (hspells "Node").2 hspell.symm, (hmodels []).2 hneeds.symm⟩

end Resolver

end TypedClient
