import TypedClient.Projection
import TypedClient.Proofs.Client.Asked
import TypedClient.Proofs.Resolution.Cycles
import TypedClient.Proofs.Resolution.Faithful
import TypedClient.Proofs.Resolution.Requests

/-! The state that a projection is built from. All named schemas have been resolved in it, and so
have the nodes that the client asks for; its types are ordered, come from where the document says,
and its references lead to registered schemas unless they were cut. -/

namespace TypedClient

namespace Resolver

open Relation

/-- What holds of a state between calls that have given types. -/
structure Steady (d : Document) (r : Resolver) : Prop where
  faithful : Faithful d r
  types : r.OrderedTypes
  sound : Sound d r
  distinct : (Assoc.keys r.registry).Nodup

variable {d : Document} {r r' : Resolver}

theorem Step.distinct {may : String → Prop} (h : Step d may r r')
    (hr : (Assoc.keys r.registry).Nodup) : (Assoc.keys r'.registry).Nodup := by
  cases h with
  | types h => rwa [h.same.2.1]
  | cut | remember => exact hr
  | register name node t => exact Assoc.nodup_keys_put hr name t

theorem steady_initial (d : Document) : Steady d {} :=
  ⟨faithful_initial d, orderedTypes_initial, Sound.initial d, List.nodup_nil⟩

theorem Steady.of_leads {may : String → Prop} (hs : Steady d r) (hf : Faithful d r')
    (hl : Leads d may r r') : Steady d r' :=
  ⟨hf, invariant_of_steps Step.orderedTypes hl.steps hs.types,
    invariant_of_steps Sound.step hl.steps hs.sound,
    invariant_of_steps Step.distinct hl.steps hs.distinct⟩

section Calls

variable (hd : d.Forest) (hs : Steady d r)

include hd hs

theorem steady_named {name : String} {t : TypeId}
    (ho : outcome (named d name) r = (.ok t, r')) :
    Steady d r' ∧ Grows (OnPath d []) r r' ∧ Assoc.get? r'.registry name = some t := by
  obtain ⟨hf, hg, -⟩ := yields_reference hd [] name hs.faithful ho
  obtain ⟨hl, hregistered⟩ := resolves_named hd name r hs.faithful.bounded trivial
  rw [ho] at hl hregistered
  exact ⟨hs.of_leads hf hl, hg, hregistered t rfl⟩

theorem steady_all (ho : outcome (all d) r = (.ok (), r')) :
    Steady d r' ∧ ∀ p ∈ d.schemas, (Assoc.get? r'.registry p.1).isSome := by
  have hregistered := (resolves_all hd r hs.faithful.bounded trivial).2 ()
  rw [ho] at hregistered
  refine ⟨?_, hregistered rfl⟩
  clear hregistered
  unfold all at ho
  generalize d.schemas = schemas at ho
  induction schemas generalizing r with
  | nil =>
    cases ho
    exact hs
  | cons p rest ih =>
    obtain ⟨_, r₁, hnamed, hrest⟩ := outcome_bind_eq_ok.1
      (show outcome (discard (named d p.1) >>= fun _ => rest.forM _) r = _ from ho)
    obtain ⟨t, r₂, hnamed, hdone⟩ := outcome_bind_eq_ok.1
      (show outcome (named d p.1 >>= fun _ => pure PUnit.unit) r = _ from hnamed)
    cases hdone
    exact ih (steady_named hd hs hnamed).1 hrest

/-- A node that stands in no schema. -/
theorem steady_node {id : NodeId} {t : TypeId} (hid : ¬ d.Declares id) (hpath : OnPath d [] id)
    (ho : outcome (node d id) r = (.ok t, r')) :
    Steady d r' ∧ Grows (Held d [] id) r r' ∧ r'.Typed id t := by
  obtain ⟨hf, hg, ht⟩ := yields_node hd hid hpath hs.faithful ho
  obtain ⟨hl, -⟩ := resolves_node hd (route_nil d id) (fun name hn => absurd ⟨name, hn⟩ hid) r
    hs.faithful.bounded fun name hn => absurd ⟨name, hn⟩ hid
  rw [show (outcome (resolveNode d [] id) r).2 = r' from congrArg Prod.snd ho] at hl
  exact ⟨hs.of_leads hf hl, hg, ht⟩

end Calls

/-- Calls for nodes that stand in no schema, one after the other. -/
theorem steady_asks (hd : d.Forest) {ids : List NodeId}
    (hids : ∀ id ∈ ids, ¬ d.Declares id ∧ OnPath d [] id) (hs : Steady d r)
    (h : Asks d ids r r') :
    Steady d r' ∧ Grows (fun x => ∀ id ∈ ids, Held d [] id x) r r' ∧
      ∀ id ∈ ids, ∃ t, r'.Typed id t := by
  induction h with
  | nil => exact ⟨hs, Grows.refl _, fun id h => absurd h List.not_mem_nil⟩
  | @cons id ids t r r₁ r₂ ho hrest ih =>
    obtain ⟨hid, hpath⟩ := hids id List.mem_cons_self
    obtain ⟨hs₁, hg₁, ht⟩ := steady_node hd hs hid hpath ho
    obtain ⟨hs₂, hg₂, htyped⟩ := ih (fun x hx => hids x (List.mem_cons_of_mem id hx)) hs₁
    refine ⟨hs₂, (hg₁.mono fun x hx => hx id List.mem_cons_self).trans
      (hg₂.mono fun x hx y hy => hx y (List.mem_cons_of_mem id hy)), fun x hx => ?_⟩
    rcases List.mem_cons.1 hx with rfl | hx
    · exact ⟨t, hg₂.memo ht⟩
    · exact htyped x hx

/-! ### Projections -/

/-- What a projection is built from: all schemas and all nodes that the client asks for have their
types. -/
structure Finished [MediaType.Reading] (d : Document) (r : Resolver) : Prop extends Steady d r where
  named : ∀ {name root}, Assoc.get? d.schemas name = some root → ∃ t, r.Typed root t ∧
    Assoc.get? r.registry name = some t
  asked : ∀ o ∈ d.operations, ∀ id ∈ Client.askedNodes o, ∃ t, r.Typed id t

/-- Where all schemas have been resolved and nothing was cut, no schema follows itself. -/
theorem Finished.acyclic [MediaType.Reading] (hr : Finished d r) (huncut : r.cycles = [])
    (name : String) :
    ¬ TransGen d.Follows name name := by
  intro hcycle
  obtain ⟨other, ⟨id, ⟨root, hn, -⟩, -⟩, -⟩ := TransGen.head'_iff.1 hcycle
  obtain ⟨t, -, ht⟩ := hr.named hn
  exact not_follows_self (hr.sound.acyclic huncut ht) hcycle

/-- A node of an operation stands in no schema. -/
theorem asked_apart [MediaType.Reading] (hd : d.WellFormed) {id : NodeId}
    (hid : id ∈ d.operations.flatMap Client.askedNodes) :
    ¬ d.Declares id ∧ OnPath d [] id := by
  obtain ⟨o, ho, hid⟩ := List.mem_flatMap.1 hid
  obtain ⟨hroot, hchild⟩ := hd.apart o ho id (Client.mem_roots_of_asked hid)
  refine ⟨?_, fun name top hn hreach => ?_⟩
  · rintro ⟨name, hn⟩
    exact hroot name hn
  rcases hreach.cases_tail with heq | ⟨x, -, hx⟩
  · rw [heq] at hroot
    exact absurd hn (hroot name)
  · exact absurd hx (hchild x)

/-- What is built comes of a run that resolves all schemas and then makes the client. -/
theorem runs_of_build [MediaType.Reading] [Text.Transliteration] {options : Client.Options}
    {p : Projection} (hp : Projection.build d options = .ok p) :
    ∃ r r', outcome (all d) {} = (.ok (), r) ∧
      outcome (Client.project d options) r = (.ok (p.client, p.warnings), r') ∧
      p.types = Projection.typesOf r' ∧ p.models = Model.project (Projection.typesOf r') := by
  unfold Projection.build at hp
  split at hp
  · cases hp
  · next client warnings r' hrun =>
    cases hp
    obtain ⟨_, r, hall, hclient⟩ := outcome_bind_eq_ok.1
      (show outcome (all d >>= fun _ => Client.project d options) {} = _ from hrun)
    exact ⟨r, r', hall, hclient, rfl, rfl⟩

/-- Once all schemas have been resolved and the client has been made, the state is finished. -/
theorem finished_of_runs [MediaType.Reading] [Text.Transliteration] (hd : d.WellFormed)
    {options : Client.Options} {client : ApiDefinition × List Warning}
    (hall : outcome (all d) {} = (.ok (), r))
    (hclient : outcome (Client.project d options) r = (.ok client, r')) : Finished d r' := by
  obtain ⟨hs₁, hregistered⟩ := steady_all hd.forest (steady_initial d) hall
  have hasks := (Client.performs_project options r r').1 ⟨_, hclient⟩
  obtain ⟨hs, hg, htyped⟩ := steady_asks hd.forest (fun id hid => asked_apart hd hid) hs₁ hasks
  refine ⟨hs, fun {name top} hn => ?_, fun o ho id hid =>
    htyped id (List.mem_flatMap.2 ⟨o, ho, hid⟩)⟩
  obtain ⟨t, ht⟩ := Option.isSome_iff_exists.1 (hregistered _ (Assoc.mem_of_get? hn))
  obtain ⟨other, ho, hother⟩ := hs.faithful.declared (hg.registry ht)
  rw [hn] at ho
  cases ho
  exact ⟨t, hother, hg.registry ht⟩

/-- What is built is built from a finished state. -/
theorem finished_of_build [MediaType.Reading] [Text.Transliteration] {root : Json}
    (h : Document.ofJson root = .ok d) {options : Client.Options} {p : Projection}
    (hp : Projection.build d options = .ok p) :
    ∃ r, Finished d r ∧ p.types = Projection.typesOf r ∧
      p.models = Model.project (Projection.typesOf r) := by
  obtain ⟨r, r', hall, hclient, htypes, hmodels⟩ := runs_of_build hp
  exact ⟨r', finished_of_runs (Document.wellFormed_of_ofJson h) hall hclient, htypes, hmodels⟩

end Resolver

end TypedClient
