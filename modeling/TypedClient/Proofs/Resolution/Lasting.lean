import TypedClient.Proofs.Resolution.Requests

/-! Types that stay as they are. A type that is made for the node of a schema waits for the name of
the schema until that is registered, and no other type ever changes. What is registered does not
wait, and no type refers to one that waits: a new type refers to types of nodes that declare no
schema, and a type that waits is only the type of the node that it was made for. So whatever is met
from a registered type is as it will be to the end. -/

namespace TypedClient

namespace TypeGraph

variable {g : TypeGraph} {t u : TypeId}

/-- One type of the graph refers to the other. -/
def RefersTo (g : TypeGraph) (t u : TypeId) : Prop :=
  ∃ info, g.get? t = some info ∧ u ∈ info.references

/-- Looking a built-in type up leaves all types as they are. -/
theorem get?_intrinsic_of_lt (name : String) (h : t < g.size) :
    (g.intrinsic name).2.get? t = g.get? t := by
  unfold intrinsic
  split
  · rfl
  · exact get?_insert_of_lt _ h

/-- What it adds refers to nothing. -/
theorem refersTo_of_intrinsic {name : String} (h : (g.intrinsic name).2.RefersTo t u) :
    g.RefersTo t u := by
  obtain ⟨info, hinfo, hu⟩ := h
  unfold intrinsic at hinfo
  split at hinfo
  · exact ⟨info, hinfo, hu⟩
  · change (g.insert (intrinsicType name)).2.get? t = some info at hinfo
    rw [get?_insert] at hinfo
    split at hinfo
    · cases hinfo
      exact absurd hu List.not_mem_nil
    · exact ⟨info, hinfo, hu⟩

/-- In an ordered graph nothing refers to the youngest type. -/
theorem Ordered.lt_pred_of_refersTo (hg : g.Ordered) (h : g.RefersTo t u) : u + 1 < g.size := by
  obtain ⟨info, hinfo, hu⟩ := h
  have holder : u < t := hg.older hinfo u hu
  exact Nat.lt_of_le_of_lt holder (lt_size_of_get? hinfo)

end TypeGraph

namespace Resolver

open Relation

variable {d : Document} {may : String → Prop} {r r' : Resolver} {t u : TypeId}

/-! ### Types that wait for a name -/

/-- The type was made for the node of a schema that is not registered yet. -/
def Awaits (d : Document) (r : Resolver) (t : TypeId) : Prop :=
  ∃ name node, Assoc.get? r.nameable t = some node ∧ Assoc.get? d.schemas name = some node ∧
    Assoc.get? r.registry name = none

/-- A type of the graph that waits for no name. -/
structure Final (d : Document) (r : Resolver) (t : TypeId) : Prop where
  bound : t < r.graph.size
  named : ¬ Awaits d r t

/-- What holds between steps: types refer to final ones, those that are registered are final, and
a type that waits is the type of one node only. -/
structure Settling (d : Document) (r : Resolver) : Prop extends Served r where
  references : ∀ {t u}, r.graph.RefersTo t u → Final d r u
  registry : ∀ {name t}, Assoc.get? r.registry name = some t → Final d r t
  memo : ∀ {node t}, Assoc.get? r.memo node = some t → Awaits d r t →
    Assoc.get? r.nameable t = some node

theorem settling_initial (d : Document) : Settling d {} where
  bounded := bounded_initial
  types := orderedTypes_initial
  references {t u} h := by
    have hlt := orderedTypes_initial.graph.lt_pred_of_refersTo h
    exact absurd (Nat.lt_of_succ_lt_succ hlt) (Nat.not_lt_zero u)
  registry h := by cases h
  memo h := by cases h

namespace Settling

/-- What may take a name is never looked up as a built-in type. -/
theorem final_of_intrinsic (hs : Settling d r) {name : String}
    (h : Assoc.get? r.graph.intrinsics name = some t) : Final d r t := by
  refine ⟨hs.bounded.intrinsics h, ?_⟩
  rintro ⟨_, _, hnameable, -, -⟩
  exact (hs.types.nameable hnameable).2 name h

theorem final_of_given (hs : Settling d r) (h : Given d r u) : Final d r u := by
  cases h with
  | any => exact hs.final_of_intrinsic hs.types.graph.any.2
  | intrinsic h => exact hs.final_of_intrinsic h
  | @inner c _ hc h =>
    refine ⟨hs.bounded.memo h, fun hw => ?_⟩
    obtain ⟨name, node, hnameable, hnode, -⟩ := id hw
    rw [hs.memo h hw] at hnameable
    cases hnameable
    exact hc ⟨name, hnode⟩

/-- All that is met from a registered type is final. -/
theorem final_of_reached (hs : Settling d r) {name : String} {id : TypeId}
    (hn : Assoc.get? r.registry name = some id) (h : ReflTransGen r.graph.RefersTo id u) :
    Final d r u := by
  cases h with
  | refl => exact hs.registry hn
  | tail _ h => exact hs.references h

/-- A node that is settled with a type that waits is the node that it was made for. -/
theorem own (hs : Settling d r) {id : NodeId} (h : Settled d r id t) (hw : Awaits d r t) :
    Assoc.get? r.nameable t = some id := by
  rcases h.origin with hgiven | ⟨name, hname⟩ | hown
  · exact absurd hw (hs.final_of_given hgiven).named
  · exact absurd hw (hs.registry hname).named
  · obtain ⟨-, node, hnameable, -⟩ := hw
    rw [hnameable, hown node hnameable]

/-- A node that is settled may be kept with its type, whatever the node had before. -/
theorem remember (hs : Settling d r) {id : NodeId} (h : Settled d r id t) :
    Settling d { r with memo := Assoc.put r.memo id t } where
  bounded := hs.bounded.remember id h.bound
  types := ⟨hs.types.graph, hs.types.nameable⟩
  references hu := ⟨(hs.references hu).bound, (hs.references hu).named⟩
  registry ht := ⟨(hs.registry ht).bound, (hs.registry ht).named⟩
  memo {node u} hu hw := by
    rw [Assoc.get?_put] at hu
    split at hu
    · next heq =>
      cases hu
      rw [← heq]
      exact hs.own h hw
    · exact hs.memo hu hw

end Settling

/-! ### Steps -/

theorem Given.not_fresh (h : Given d r u) : ¬ Fresh r u := by
  intro hfresh
  cases h with
  | any => exact hfresh.ne_any rfl
  | intrinsic h => exact hfresh.intrinsics _ h
  | inner _ h => exact Nat.lt_irrefl _ (hfresh.memo h)

theorem not_fresh_of_refersTo (hg : r.graph.Ordered) (h : r.graph.RefersTo t u) : ¬ Fresh r u :=
  fun hfresh => Nat.ne_of_lt (hg.lt_pred_of_refersTo h) hfresh.last

namespace Step

/-- Only the youngest type may be marked. -/
theorem nameable (h : Step d may r r') (hold : ¬ Fresh r t) :
    Assoc.get? r'.nameable t = Assoc.get? r.nameable t := by
  cases h with
  | cut | remember | register => rfl
  | types h =>
    cases h with
    | insert | intrinsic | rename => rfl
    | mark id node hfresh =>
      have hne : id ≠ t := by
        rintro rfl
        exact hold hfresh
      exact Assoc.get?_put_of_ne hne ..

/-- No type that is older than the youngest begins to wait. -/
theorem awaits (h : Step d may r r') (hold : ¬ Fresh r t) (hw : Awaits d r' t) :
    Awaits d r t := by
  obtain ⟨name, node, hnameable, hnode, hnew⟩ := hw
  refine ⟨name, node, (h.nameable hold).symm.trans hnameable, hnode, ?_⟩
  cases hr : Assoc.get? r.registry name with
  | none => rfl
  | some u =>
    rw [h.extends.registry hr] at hnew
    cases hnew

theorem final (h : Step d may r r') (hold : ¬ Fresh r t) (hf : Final d r t) : Final d r' t :=
  ⟨Nat.lt_of_lt_of_le hf.bound h.extends.size, fun hw => hf.named (h.awaits hold hw)⟩

/-- Types refer to what they have referred to before, and new ones to what is given. -/
theorem references (h : Step d may r r') (hu : r'.graph.RefersTo t u) :
    r.graph.RefersTo t u ∨ Given d r u := by
  obtain ⟨info, hinfo, hmem⟩ := hu
  cases h with
  | cut | remember | register => exact .inl ⟨info, hinfo, hmem⟩
  | types h =>
    cases h with
    | mark => exact .inl ⟨info, hinfo, hmem⟩
    | insert added hbound hgiven =>
      rw [TypeGraph.get?_insert] at hinfo
      split at hinfo
      · cases hinfo
        exact .inr (hgiven u hmem)
      · exact .inl ⟨info, hinfo, hmem⟩
    | intrinsic name => exact .inl (TypeGraph.refersTo_of_intrinsic ⟨info, hinfo, hmem⟩)
    | rename id node schema name hnameable =>
      rw [TypeGraph.get?_set] at hinfo
      split at hinfo
      · next heq =>
        obtain ⟨old, hold, rfl⟩ := Option.map_eq_some_iff.1 hinfo
        refine .inl ⟨old, heq ▸ hold, ?_⟩
        rw [← TypeGraph.get_of_get? hold]
        exact hmem
      · exact .inl ⟨info, hinfo, hmem⟩

theorem settling (hd : d.Forest) (h : Step d may r r') (hs : Settling d r) : Settling d r' where
  bounded := h.bounded hs.bounded
  types := h.orderedTypes hs.types
  references {t u} hu := by
    rcases h.references hu with hu | hu
    · exact h.final (not_fresh_of_refersTo hs.types.graph hu) (hs.references hu)
    · exact h.final hu.not_fresh (hs.final_of_given hu)
  registry {name t} ht := by
    have hkept : ∀ {t}, Assoc.get? r.registry name = some t → Final d r' t := by
      intro t ht
      exact h.final (fun hfresh => Nat.lt_irrefl t (hfresh.registry ht)) (hs.registry ht)
    have hstep := h
    cases h with
    | types h =>
      rw [h.same.2.1] at ht
      exact hkept ht
    | cut | remember => exact hkept ht
    | register schema node v _ hnode hnew hv =>
      rw [Assoc.get?_put] at ht
      split at ht
      · cases ht
        refine ⟨hs.bounded.memo hv, fun hw => ?_⟩
        -- the node has no other name, and that one is registered now
        have hbefore := hstep.awaits (fun hfresh => Nat.lt_irrefl t (hfresh.memo hv)) hw
        have hown := hs.memo hv hbefore
        obtain ⟨other, root, hroot, hother, hnone⟩ := hw
        have hsame : root = node := Option.some.inj (hroot.symm.trans hown)
        rw [hsame] at hother
        rw [hd.name_unique hother hnode, Assoc.get?_put_self] at hnone
        cases hnone
      · exact hkept ht
  memo {node t} ht hw := by
    have hkept : Assoc.get? r.memo node = some t → Assoc.get? r'.nameable t = some node := by
      intro ht
      have hold : ¬ Fresh r t := fun hfresh => Nat.lt_irrefl t (hfresh.memo ht)
      rw [h.nameable hold]
      exact hs.memo ht (h.awaits hold hw)
    cases h with
    | types h =>
      rw [h.same.1] at ht
      exact hkept ht
    | cut | register => exact hkept ht
    | remember id v hsettled => exact (hs.remember hsettled).memo ht hw

end Step

/-! ### What lasts -/

/-- Names keep their types, and all that is met from these stays as it is. -/
def Lasts (r r' : Resolver) : Prop :=
  ∀ name id, Assoc.get? r.registry name = some id → Assoc.get? r'.registry name = some id ∧
    ∀ u, ReflTransGen r.graph.RefersTo id u → r'.graph.get? u = r.graph.get? u

namespace Lasts

theorem of_same (hregistry : r'.registry = r.registry) (hgraph : r'.graph = r.graph) :
    Lasts r r' := by
  intro name id hn
  rw [hregistry, hgraph]
  exact ⟨hn, fun _ _ => rfl⟩

/-- The same types are met afterwards. -/
theorem reached (h : Lasts r r') {name : String} {id : TypeId}
    (hn : Assoc.get? r.registry name = some id) (hu : ReflTransGen r.graph.RefersTo id u) :
    ReflTransGen r'.graph.RefersTo id u := by
  induction hu with
  | refl => exact .refl
  | @tail v w hv hw ih =>
    obtain ⟨info, hinfo, hmem⟩ := hw
    exact ih.tail ⟨info, ((h name id hn).2 v hv).trans hinfo, hmem⟩

theorem trans {r'' : Resolver} (h : Lasts r r') (h' : Lasts r' r'') : Lasts r r'' := by
  intro name id hn
  obtain ⟨hn', hsame⟩ := h name id hn
  refine ⟨(h' name id hn').1, fun u hu => ?_⟩
  exact ((h' name id hn').2 u (h.reached hn hu)).trans (hsame u hu)

end Lasts

/-- A step changes a type only to give it the name that it waits for. -/
theorem Step.get?_eq (h : Step d may r r') (hf : Final d r t) :
    r'.graph.get? t = r.graph.get? t := by
  cases h with
  | cut | remember | register => rfl
  | types h =>
    cases h with
    | mark => rfl
    | insert added => exact TypeGraph.get?_insert_of_lt added hf.bound
    | intrinsic name => exact TypeGraph.get?_intrinsic_of_lt name hf.bound
    | rename id node schema name hnameable hnode hnew =>
      have hne : id ≠ t := by
        rintro rfl
        exact hf.named ⟨schema, node, hnameable, hnode, hnew⟩
      rw [TypeGraph.get?_set, if_neg hne]

theorem Step.lasts (h : Step d may r r') (hs : Settling d r) : Lasts r r' :=
  fun _ _ hn => ⟨h.extends.registry hn, fun _ hu => h.get?_eq (hs.final_of_reached hn hu)⟩

/-- What holds along a run. -/
theorem Leads.settling (hd : d.Forest) (h : Leads d may r r') (hs : Settling d r) :
    Settling d r' ∧ Lasts r r' :=
  invariant_of_steps (I := fun r' => Settling d r' ∧ Lasts r r')
    (fun hstep hI => ⟨hstep.settling hd hI.1, hI.2.trans (hstep.lasts hI.1)⟩) h.steps
    ⟨hs, .of_same rfl rfl⟩

/-! ### Requests in a row -/

theorem settling_request (hd : d.Forest) (request : Request) (hs : Settling d r) :
    Settling d (outcome (request.run d) r).2 ∧ Lasts r (outcome (request.run d) r).2 := by
  cases request with
  | builtin name =>
    rw [Request.run, outcome_map]
    have hstep : Leads d (fun _ => True) r _ := Leads.types (.intrinsic r name)
    exact hstep.settling hd hs
  | call asked =>
    rw [Request.run]
    cases asked with
    | all =>
      rw [Call.run, outcome_map]
      exact (resolves_all hd r hs.bounded trivial).1.settling hd hs
    | named name =>
      rw [Call.run, outcome_map]
      exact (resolves_named hd name r hs.bounded trivial).1.settling hd hs
    | node id =>
      rw [outcome_run_node]
      rcases outcome_node hd id hs.bounded with
        ⟨t, -, ho⟩ | ⟨-, r', hl, ⟨e, ho⟩ | ⟨t, -, hsettled, -, ho⟩⟩
      · rw [ho]
        exact ⟨hs, .of_same rfl rfl⟩
      · rw [ho]
        exact hl.settling hd hs
      · rw [ho]
        obtain ⟨hs', hlasts⟩ := hl.settling hd hs
        exact ⟨hs'.remember hsettled, hlasts.trans (.of_same rfl rfl)⟩

theorem settling_served (hd : d.Forest) (requests : List Request) :
    Settling d (served d requests) := by
  induction requests using List.reverseRecOn with
  | nil => exact settling_initial d
  | append_singleton requests request ih =>
    rw [served_concat]
    exact (settling_request hd request ih).1

theorem lasts_served (hd : d.Forest) (before rest : List Request) :
    Lasts (served d before) (served d (before ++ rest)) := by
  induction rest using List.reverseRecOn with
  | nil =>
    rw [List.append_nil]
    exact .of_same rfl rfl
  | append_singleton rest request ih =>
    rw [← List.append_assoc, served_concat]
    exact ih.trans (settling_request hd request (settling_served hd _)).2

/-- Types that were resolved by name are final. After a call for a name has given a type, requests
of any kind, failed ones included, leave the name with this type, and leave the type and each one
that is met from it along references as it was after that call. -/
theorem named_lasts {root : Json} (h : Document.ofJson root = .ok d) (before rest : List Request)
    {name : String} {id : TypeId} (hid : (outcome (named d name) (served d before)).1 = .ok id) :
    Assoc.get? (served d (before ++ .call (.named name) :: rest)).registry name = some id ∧
    ∀ u, ReflTransGen (served d (before ++ [.call (.named name)])).graph.RefersTo id u →
      ∃ t, (served d (before ++ [.call (.named name)])).graph.get? u = some t ∧
        (served d (before ++ .call (.named name) :: rest)).graph.get? u = some t := by
  have hd := Document.forest_of_ofJson h
  have hsettling := settling_served hd (before ++ [.call (.named name)])
  have hregistered : Assoc.get? (served d (before ++ [.call (.named name)])).registry name =
      some id := by
    rw [served_concat, Request.run, Call.run, outcome_map]
    exact (resolves_named hd name _ (settling_served hd before).bounded trivial).2 id hid
  have hlasts := lasts_served hd (before ++ [.call (.named name)]) rest
  rw [List.append_assoc, List.singleton_append] at hlasts
  obtain ⟨hkept, hsame⟩ := hlasts name id hregistered
  refine ⟨hkept, fun u hu => ?_⟩
  obtain ⟨t, ht⟩ := TypeGraph.exists_get? (hsettling.final_of_reached hregistered hu).bound
  exact ⟨t, ht, (hsame u hu).trans ht⟩

/-- The node has been resolved by itself before its name is, and a call that fails comes last. -/
theorem named_lasts_loop :
    ∃ d, Document.ofJson loop = .ok d ∧
      (outcome (named d "Node") (served d [.call (.node 1)])).1 = .ok 1 ∧
      Assoc.get? (served d [.call (.node 1), .call (.named "Node"), .builtin "string",
        .call (.named "Missing")]).registry "Node" = some 1 ∧
      ∃ t, (served d [.call (.node 1), .call (.named "Node")]).graph.get? 1 = some t ∧
        (served d [.call (.node 1), .call (.named "Node"), .builtin "string",
          .call (.named "Missing")]).graph.get? 1 = some t := by
  have hrun : (Document.ofJson loop).map (fun d =>
      (outcome (named d "Node") (served d [.call (.node 1)])).1.toOption) = .ok (some 1) := by
    decide +kernel
  cases hd : Document.ofJson loop with
  | error e => rw [hd] at hrun; cases hrun
  | ok d =>
    rw [hd] at hrun
    have hid : (outcome (named d "Node") (served d [.call (.node 1)])).1 = .ok 1 := by
      replace hrun : (outcome (named d "Node") (served d [.call (.node 1)])).1.toOption = some 1 :=
        Except.ok.inj hrun
      cases ho : (outcome (named d "Node") (served d [.call (.node 1)])).1 with
      | error e => rw [ho] at hrun; cases hrun
      | ok t => rw [ho] at hrun; cases hrun; rfl
    obtain ⟨hregistry, hsame⟩ := named_lasts hd [.call (.node 1)]
      [.builtin "string", .call (.named "Missing")] hid
    exact ⟨d, rfl, hid, hregistry, hsame 1 .refl⟩

end Resolver

end TypedClient
