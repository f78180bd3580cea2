import TypedClient.Proofs.Model.Independence
import TypedClient.Proofs.Resolution.Retried

/-! Clients that are made once more. Making a client asks for the types of nodes and spells them
out; a node keeps its type, and a type that was there is spelled the same when others have been
added. So a client that was made is made again, the same one, in the state that it has left, which
does not change any more. -/

namespace TypedClient

namespace Client

open Resolver

variable {α β : Type} {d : Document} {options : Options}

/-- When the call has given a value, it gives this value once more in every later state, and leaves
that state as it is. -/
def Repeats (d : Document) (m : Resolving α) : Prop :=
  ∀ r a r', Steady d r → outcome m r = (.ok a, r') →
    Steady d r' ∧ Grows (fun _ => False) r r' ∧
      ∀ s, Steady d s → Grows (fun _ => False) r' s → outcome m s = (.ok a, s)

namespace Repeats

theorem pure (a : α) : Repeats d (Pure.pure a) := by
  intro r b r' hr h
  cases h
  exact ⟨hr, Grows.refl r, fun _ _ _ => rfl⟩

theorem bind {m : Resolving α} {f : α → Resolving β} (hm : Repeats d m)
    (hf : ∀ a, Repeats d (f a)) : Repeats d (m >>= f) := by
  intro r b r'' hr h
  obtain ⟨a, r', ha, hb⟩ := outcome_bind_eq_ok.1 h
  obtain ⟨hr', hg, hagain⟩ := hm r a r' hr ha
  obtain ⟨hr'', hg', hagain'⟩ := hf a r' b r'' hr' hb
  refine ⟨hr'', hg.trans hg', fun s hs hgs => ?_⟩
  exact outcome_bind_eq_ok.2 ⟨a, s, hagain s hs (hg'.trans hgs), hagain' s hs hgs⟩

theorem mapM {f : α → Resolving β} {xs : List α} (hf : ∀ x ∈ xs, Repeats d (f x)) :
    Repeats d (xs.mapM f) := by
  induction xs with
  | nil => exact pure []
  | cons x xs ih =>
    rw [List.forall_mem_cons] at hf
    rw [List.mapM_cons]
    exact (hf.1).bind fun b => (ih hf.2).bind fun bs => pure _

variable (hd : d.Forest) {id : NodeId} (hid : ¬ d.Declares id ∧ OnPath d [] id)

include hd hid

/-- What is told of the type of a node, when that does not change with types that are added. -/
theorem told {f : TypeGraph → TypeId → α}
    (hf : ∀ {g g' : TypeGraph} {t}, g.Ordered → g'.Ordered → t < g.size →
      TypeGraph.Mirrors g' g (fun u u' => u = u' ∧ u < g.size) → f g' t = f g t) :
    Repeats d (node d id >>= fun t => get >>= fun r => Pure.pure (f r.graph t)) := by
  intro r a r' hr h
  obtain ⟨t, r₁, hnode, h⟩ := outcome_bind_eq_ok.1 h
  cases h
  obtain ⟨hr', hg, ht⟩ := steady_node hd hr hid.1 hid.2 hnode
  refine ⟨hr', hg.mono fun _ h => h.elim, fun s hs hgs => ?_⟩
  have hlt : t < r'.graph.size := hr'.faithful.bounded.memo ht
  rw [← hf hr'.types.graph hs.types.graph hlt (hgs.mirrors hr'.types.graph)]
  exact outcome_bind_eq_ok.2 ⟨t, s, outcome_resolveNode_of_memo hd (hgs.memo ht), rfl⟩

theorem spellNode : Repeats d (spellNode d id) :=
  told (f := TypeGraph.spell) hd hid fun hg hg' ht hm => hm.spell hg' hg ⟨rfl, ht⟩

end Repeats

/-! ### Actions -/

section Actions

variable (hd : d.Forest)

include hd

theorem repeats_parametersIn {o : Operation} {places : List ParameterPlace}
    (hids : ∀ id ∈ parameterNodes o places, ¬ d.Declares id ∧ OnPath d [] id) :
    Repeats d (parametersIn d o places) :=
  .mapM fun _ hp => (Repeats.spellNode hd (hids _ (List.mem_map_of_mem hp))).bind fun _ => .pure _

theorem repeats_requestOf [MediaType.Reading] {b : Option Body}
    (hids : ∀ id ∈ requestNode? b, ¬ d.Declares id ∧ OnPath d [] id) :
    Repeats d (requestOf d b) := by
  cases b with
  | none => exact .pure _
  | some b =>
    unfold requestNode? at hids
    unfold requestOf
    dsimp only [Option.bind_some] at hids ⊢
    split
    · next id hj =>
      rw [hj] at hids
      exact (Repeats.spellNode hd (hids id rfl)).bind fun _ => .pure _
    · next id hj hf =>
      rw [hj, hf] at hids
      refine Repeats.told (f := fun g t => (some TypeGraph.formDataName,
        if (Model.properties g t false).isEmpty then none
        else some (Model.properties g t false))) hd (hids id rfl) fun hg hg' ht hm => ?_
      rw [Model.properties_mirrored hm hg' hg ⟨rfl, ht⟩]
    · exact .pure _

theorem repeats_returnTypeOf [MediaType.Reading] {b : Option Body}
    (hids : ∀ id ∈ responseNode? b, ¬ d.Declares id ∧ OnPath d [] id) :
    Repeats d (returnTypeOf d b) := by
  cases b with
  | none => exact .pure _
  | some b =>
    unfold responseNode? at hids
    unfold returnTypeOf
    dsimp only [Option.bind_some] at hids ⊢
    split
    · exact .pure _
    · next hbinary =>
      rw [if_neg hbinary] at hids
      split
      · next id hj =>
        rw [hj] at hids
        exact .spellNode hd (hids id rfl)
      · next id hj ha =>
        rw [hj, ha] at hids
        exact .spellNode hd (hids id rfl)
      · exact .pure _

theorem repeats_actionOf [MediaType.Reading] [Text.Transliteration] {o : Operation}
    (hids : ∀ id ∈ askedNodes o, ¬ d.Declares id ∧ OnPath d [] id) :
    Repeats d (actionOf d options o) := by
  simp only [askedNodes, List.forall_mem_append, Option.mem_toList] at hids
  obtain ⟨hparameters, hheader, hrequest, hresponse⟩ := hids
  exact (repeats_parametersIn hd hparameters).bind fun _ =>
    (repeats_parametersIn hd hheader).bind fun _ => (repeats_requestOf hd hrequest).bind fun _ =>
      (repeats_returnTypeOf hd hresponse).bind fun _ => .pure _

theorem repeats_placeAll [MediaType.Reading] [Text.Transliteration] {ops : List Operation}
    (hids : ∀ o ∈ ops, ∀ id ∈ askedNodes o, ¬ d.Declares id ∧ OnPath d [] id)
    (placed : RouteTree × List Warning) : Repeats d (placeAll d options ops placed) := by
  induction ops generalizing placed with
  | nil => exact .pure _
  | cons o rest ih =>
    rw [List.forall_mem_cons] at hids
    exact (repeats_actionOf hd hids.1).bind fun _ => ih hids.2 _

theorem repeats_project [MediaType.Reading] [Text.Transliteration]
    (hids : ∀ o ∈ d.operations, ∀ id ∈ askedNodes o, ¬ d.Declares id ∧ OnPath d [] id) :
    Repeats d (project d options) :=
  (repeats_placeAll hd hids _).bind fun _ => .pure _

end Actions

/-- **The client that was made after all schemas is made again, the same one, in the state that it
has left.** -/
theorem project_again [MediaType.Reading] [Text.Transliteration] (hd : d.WellFormed)
    {r r' : Resolver}
    {client : ApiDefinition × List Warning} (hall : outcome (all d) {} = (.ok (), r))
    (hclient : outcome (project d options) r = (.ok client, r')) :
    outcome (project d options) r' = (.ok client, r') := by
  have hs := (steady_all hd.forest (steady_initial d) hall).1
  have hrepeats : Repeats d (project d options) :=
    repeats_project hd.forest fun o ho id hid => asked_apart hd (List.mem_flatMap.2 ⟨o, ho, hid⟩)
  obtain ⟨hs', -, hagain⟩ := hrepeats r client r' hs hclient
  exact hagain r' hs' (Grows.refl r')

end Client

end TypedClient
