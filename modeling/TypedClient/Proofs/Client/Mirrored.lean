import TypedClient.Proofs.Client.Again
import TypedClient.Proofs.Document.Aliased
import TypedClient.Proofs.Resolution.Mirrored

/-! Clients of two documents whose operations say the same about related nodes. Where all nodes that
the clients ask for have their types, and the types of related nodes look alike, each step of making
the one client gives what the same step gives in making the other. -/

namespace TypedClient

namespace Client

open Resolver

variable {α β : Type} {d d' : Document} {r r' : Resolver} {M : NodeId → NodeId → Prop}
  {options : Options}

/-- Each call gives the same value in its own state, which it leaves as it is. -/
def GiveSame (r r' : Resolver) (m m' : Resolving α) : Prop :=
  ∃ a, outcome m r = (.ok a, r) ∧ outcome m' r' = (.ok a, r')

namespace GiveSame

theorem pure (a : α) : GiveSame r r' (Pure.pure a) (Pure.pure a) := ⟨a, rfl, rfl⟩

theorem bind {m m' : Resolving α} {f f' : α → Resolving β} (hm : GiveSame r r' m m')
    (hf : ∀ a, GiveSame r r' (f a) (f' a)) : GiveSame r r' (m >>= f) (m' >>= f') := by
  obtain ⟨a, ha, ha'⟩ := hm
  obtain ⟨b, hb, hb'⟩ := hf a
  exact ⟨b, outcome_bind_eq_ok.2 ⟨a, r, ha, hb⟩, outcome_bind_eq_ok.2 ⟨a, r', ha', hb'⟩⟩

theorem mapM {γ : Type} {f : α → Resolving γ} {f' : β → Resolving γ} {xs : List α} {ys : List β}
    (h : List.Forall₂ (fun x y => GiveSame r r' (f x) (f' y)) xs ys) :
    GiveSame r r' (xs.mapM f) (ys.mapM f') := by
  induction h with
  | nil => exact pure []
  | cons hx _ ih =>
    rw [List.mapM_cons, List.mapM_cons]
    exact hx.bind fun c => ih.bind fun cs => pure _

end GiveSame

/-- Two documents with states in which the types of related nodes look alike. -/
structure Mirrored (d d' : Document) (M : NodeId → NodeId → Prop) (r r' : Resolver) : Prop where
  forest : d.Forest
  forest' : d'.Forest
  ordered : r.graph.Ordered
  ordered' : r'.graph.Ordered
  mirrors : TypeGraph.Mirrors r.graph r'.graph (Pairs M r r')

/-- Related nodes that both have their types. -/
def Paired (M : NodeId → NodeId → Prop) (r r' : Resolver) (x x' : NodeId) : Prop :=
  M x x' ∧ (∃ t, r.Typed x t) ∧ ∃ t', r'.Typed x' t'

section Actions

variable (h : Mirrored d d' M r r')

include h

/-- What is told of the types of paired nodes, when it is the same of types that look alike. -/
theorem GiveSame.told {f : TypeGraph → TypeId → α} {x x' : NodeId} (hx : Paired M r r' x x')
    (hf : ∀ {t t'}, Pairs M r r' t t' → f r.graph t = f r'.graph t') :
    GiveSame r r' (node d x >>= fun t => get >>= fun s => Pure.pure (f s.graph t))
      (node d' x' >>= fun t => get >>= fun s => Pure.pure (f s.graph t)) := by
  obtain ⟨hM, ⟨t, ht⟩, t', ht'⟩ := hx
  refine ⟨f r.graph t, outcome_bind_eq_ok.2 ⟨t, r, outcome_resolveNode_of_memo h.forest ht, rfl⟩,
    ?_⟩
  rw [hf (.inr ⟨x, x', hM, ht, ht'⟩)]
  exact outcome_bind_eq_ok.2 ⟨t', r', outcome_resolveNode_of_memo h.forest' ht', rfl⟩

theorem giveSame_spellNode {x x' : NodeId} (hx : Paired M r r' x x') :
    GiveSame r r' (spellNode d x) (spellNode d' x') :=
  GiveSame.told (f := TypeGraph.spell) h hx fun hR =>
    TypeGraph.Mirrors.spell h.mirrors h.ordered h.ordered' hR

theorem giveSame_parametersIn {o o' : Operation} {places : List ParameterPlace}
    (ho : o.Agrees M o') (hx : ∀ x ∈ parameterNodes o places, ∃ t, r.Typed x t)
    (hx' : ∀ x ∈ parameterNodes o' places, ∃ t, r'.Typed x t) :
    GiveSame r r' (parametersIn d o places) (parametersIn d' o' places) := by
  have hfiltered := filter_of_forall₂ (p := fun p : Parameter => places.contains p.place)
    (q := fun p : Parameter => places.contains p.place) ho.parameters
    fun p p' hp => by rw [hp.2]
  refine .mapM (forall₂_imp hfiltered fun p hp p' hp' hsame => ?_)
  have hpaired : Paired M r r' p.schema p'.schema :=
    ⟨hsame.1, hx _ (List.mem_map_of_mem hp), hx' _ (List.mem_map_of_mem hp')⟩
  rw [hsame.2]
  exact (giveSame_spellNode h hpaired).bind fun _ => .pure _

theorem giveSame_requestOf [MediaType.Reading] {b b' : Option Body}
    (hb : Option.Rel (Body.Matches M) b b')
    (hx : ∀ x ∈ requestNode? b, ∃ t, r.Typed x t)
    (hx' : ∀ x ∈ requestNode? b', ∃ t, r'.Typed x t) :
    GiveSame r r' (requestOf d b) (requestOf d' b') := by
  cases hb with
  | none => exact .pure _
  | @some b b' hb =>
    have hjson := contentOf_matches hb .json
    have hform := contentOf_matches hb .form
    unfold requestNode? at hx hx'
    unfold requestOf
    dsimp only [Option.bind_some] at hx hx' ⊢
    generalize contentOf? b .json = json, contentOf? b' .json = json' at hjson hx hx' ⊢
    generalize contentOf? b .form = form, contentOf? b' .form = form' at hform hx hx' ⊢
    cases hjson with
    | some hM =>
      exact (giveSame_spellNode h ⟨hM, hx _ rfl, hx' _ rfl⟩).bind fun _ => .pure _
    | none =>
      cases hform with
      | some hM =>
        refine GiveSame.told (f := fun g t => (some TypeGraph.formDataName,
          if (Model.properties g t false).isEmpty then none
          else some (Model.properties g t false))) h ⟨hM, hx _ rfl, hx' _ rfl⟩ fun hR => ?_
        rw [Model.properties_mirrored h.mirrors h.ordered h.ordered' hR]
      | none => exact .pure _

theorem giveSame_returnTypeOf [MediaType.Reading] {b b' : Option Body}
    (hb : Option.Rel (Body.Matches M) b b')
    (hx : ∀ x ∈ responseNode? b, ∃ t, r.Typed x t)
    (hx' : ∀ x ∈ responseNode? b', ∃ t, r'.Typed x t) :
    GiveSame r r' (returnTypeOf d b) (returnTypeOf d' b') := by
  cases hb with
  | none => exact .pure _
  | @some b b' hb =>
    have hjson := contentOf_matches hb .json
    have hanything := contentOf_matches hb .anything
    unfold responseNode? at hx hx'
    unfold returnTypeOf
    dsimp only [Option.bind_some] at hx hx' ⊢
    rw [hasContent_matches hb] at hx ⊢
    split
    · exact .pure _
    · next hbinary =>
      rw [if_neg hbinary] at hx hx'
      generalize contentOf? b .json = json, contentOf? b' .json = json' at hjson hx hx' ⊢
      generalize contentOf? b .anything = anything, contentOf? b' .anything = anything'
        at hanything hx hx' ⊢
      cases hjson with
      | some hM => exact giveSame_spellNode h ⟨hM, hx _ rfl, hx' _ rfl⟩
      | none =>
        cases hanything with
        | some hM => exact giveSame_spellNode h ⟨hM, hx _ rfl, hx' _ rfl⟩
        | none => exact .pure _

theorem giveSame_actionOf [MediaType.Reading] [Text.Transliteration] {o o' : Operation}
    (ho : o.Agrees M o')
    (hx : ∀ x ∈ askedNodes o, ∃ t, r.Typed x t) (hx' : ∀ x ∈ askedNodes o', ∃ t, r'.Typed x t) :
    GiveSame r r' (actionOf d options o) (actionOf d' options o') := by
  simp only [askedNodes, List.forall_mem_append, Option.mem_toList] at hx hx'
  obtain ⟨hparameters, hheader, hrequest, hresponse⟩ := hx
  obtain ⟨hparameters', hheader', hrequest', hresponse'⟩ := hx'
  have hkind : responseTypeOf options.responseType o.response =
      responseTypeOf options.responseType o'.response := by
    have hb := ho.response
    generalize o.response = b, o'.response = b' at hb
    cases hb with
    | none => rfl
    | some hb =>
      unfold responseTypeOf
      dsimp only
      rw [hasContent_matches hb, hasContent_matches hb]
  unfold actionOf
  refine (giveSame_parametersIn h ho hparameters hparameters').bind fun _ =>
    (giveSame_parametersIn h ho hheader hheader').bind fun _ =>
      (giveSame_requestOf h ho.request hrequest hrequest').bind fun _ =>
        (giveSame_returnTypeOf h ho.response hresponse hresponse').bind fun _ => ?_
  rw [hkind, ho.same]
  exact .pure _

theorem giveSame_placeAll [MediaType.Reading] [Text.Transliteration] {ops ops' : List Operation}
    (hops : List.Forall₂ (Operation.Agrees M) ops ops')
    (hx : ∀ o ∈ ops, ∀ x ∈ askedNodes o, ∃ t, r.Typed x t)
    (hx' : ∀ o ∈ ops', ∀ x ∈ askedNodes o, ∃ t, r'.Typed x t)
    (placed : RouteTree × List Warning) :
    GiveSame r r' (placeAll d options ops placed) (placeAll d' options ops' placed) := by
  induction hops generalizing placed with
  | nil => exact .pure _
  | @cons o o' rest rest' ho _ ih =>
    rw [List.forall_mem_cons] at hx hx'
    have hroute : routeOf o' = routeOf o := by
      rw [ho.same]
      rfl
    unfold placeAll
    rw [hroute]
    exact (giveSame_actionOf h ho hx.1 hx'.1).bind fun _ => ih hx.2 hx'.2 _

/-- The client of the other document is the same. -/
theorem giveSame_project [MediaType.Reading] [Text.Transliteration]
    (hops : List.Forall₂ (Operation.Agrees M) d.operations d'.operations)
    (htags : d.tags = d'.tags) (hx : ∀ o ∈ d.operations, ∀ x ∈ askedNodes o, ∃ t, r.Typed x t)
    (hx' : ∀ o ∈ d'.operations, ∀ x ∈ askedNodes o, ∃ t, r'.Typed x t) :
    GiveSame r r' (project d options) (project d' options) := by
  have htag : d.tagDescription = d'.tagDescription := by
    funext name
    rw [Document.tagDescription, Document.tagDescription, htags]
  unfold project
  rw [htag]
  exact (giveSame_placeAll h hops hx hx' _).bind fun _ => .pure _

end Actions

end Client

end TypedClient
