import TypedClient.Client.MediaTypeGrammar
import TypedClient.Proofs.Client.Mirrored
import TypedClient.Proofs.Document.RedirectedUpgrade
import TypedClient.Proofs.Model.AnyOrder
import TypedClient.Proofs.Resolution.Aliased
import TypedClient.Text.AsciiTable

/-! Projections of documents with another name for a schema. The state in which such a document has
been resolved, without that name, and the state of the document that has no such name hold types
that look alike; so the models are the same but for their order, and the clients are the same. -/

namespace TypedClient

open Relation

namespace Resolver

variable {d d' : Document} {M : NodeId → NodeId → Prop} {r r' : Resolver} {fresh target : String}

/-- A name whose type has another name as well can be forgotten: the models stay. -/
theorem project_forget_perm (hr : Steady d r) (hr' : (Assoc.keys (r.forget fresh).registry).Nodup)
    (hne : target ≠ fresh)
    (hsame : ∀ {t}, Assoc.get? r.registry fresh = some t → Assoc.get? r.registry target = some t) :
    (Model.project (Projection.typesOf (r.forget fresh))).Perm
      (Model.project (Projection.typesOf r)) := by
  have htypes : (Model.modelTypes (Projection.typesOf (r.forget fresh))).Perm
      (Model.modelTypes (Projection.typesOf r)) := by
    refine (List.perm_ext_iff_of_nodup (Model.nodup_modelTypes _) (Model.nodup_modelTypes _)).2
      fun t => ?_
    refine (Model.mem_modelTypes hr').trans (Iff.trans ?_ (Model.mem_modelTypes hr.distinct).symm)
    refine and_congr_left fun _ => ⟨fun ⟨name, hn⟩ => ?_, fun ⟨name, hn⟩ => ?_⟩
    · exact ⟨name, (get?_forget_eq_some.1 hn).2⟩
    · by_cases hname : name = fresh
      · exact ⟨target, get?_forget_eq_some.2 ⟨hne, hsame (hname ▸ hn)⟩⟩
      · exact ⟨name, get?_forget_eq_some.2 ⟨hname, hn⟩⟩
  exact ((Model.groupBy_perm _ _).trans (htypes.trans (Model.groupBy_perm _ _).symm)).map _

section Build

variable [MediaType.Reading] (ha : d.Aliased d' fresh target M) (hd : d.Forest) (hr : Finished d r)
  (huncut : r.cycles = [])

include ha hd hr huncut

/-- The nodes of the document with the other name cannot fail where all nodes of the document
without it have their types. -/
theorem live_of_aliased :
    Live d' (fun x' => (∃ x t, M x x' ∧ r.Typed x t) ∨ d'.Refers x' target) := by
  refine (live_of_alike ha.agrees.alike hd hr.toSteady huncut).of_unaliased ha.isAlias ha.ne ?_
  obtain ⟨root, hroot⟩ := Option.isSome_iff_exists.1 ha.isSchema
  obtain ⟨root', hroot', hM⟩ := ha.agrees.alike.named_left hroot
  obtain ⟨t, ht, -⟩ := hr.named hroot
  exact ⟨root', (Document.get?_unaliased_eq_some.1 hroot').2, root, t, hM, ht⟩

end Build

end Resolver

namespace Projection

open Resolver

variable {d d' : Document} {M : NodeId → NodeId → Prop} {fresh target : String}
  {options : Client.Options} {p : Projection}

theorem exists_build_of_aliased [MediaType.Reading] [Text.Transliteration] (hd : d.WellFormed)
    (hd' : d'.WellFormed)
    (ha : d.Aliased d' fresh target M) (hacyclic : ∀ name, ¬ TransGen d.Follows name name)
    (hp : build d options = .ok p) : ∃ p', build d' options = .ok p' := by
  obtain ⟨r₁, r, hall, hclient, -, -⟩ := runs_of_build hp
  have hr := finished_of_runs hd hall hclient
  have huncut := hr.sound.uncut hacyclic
  have hacyclic' := ha.isAlias.acyclic ha.ne (ha.agrees.alike.acyclic hacyclic)
  refine build_of_live hd' options hacyclic' (live_of_aliased ha hd.forest hr huncut)
    (fun {name root'} hn' => ?_) fun id' hid' => ?_
  · by_cases hname : name = fresh
    · obtain ⟨node, hnode, hto⟩ := ha.isAlias
      rw [hname, hnode] at hn'
      cases hn'
      exact .inr hto
    · obtain ⟨root, hn, hM⟩ :=
        ha.agrees.alike.named_right (Document.get?_unaliased_eq_some.2 ⟨hname, hn'⟩)
      obtain ⟨t, ht, -⟩ := hr.named hn
      exact .inl ⟨root, t, hM, ht⟩
  · obtain ⟨o', ho', hid'⟩ := List.mem_flatMap.1 hid'
    obtain ⟨o, ho, hmatches⟩ := ha.agrees.alike.operation' o' ho'
    obtain ⟨id, hid, hM⟩ := exists_of_mem_right (Client.askedNodes_matches hmatches) hid'
    obtain ⟨t, ht⟩ := hr.asked o ho id hid
    exact .inl ⟨id, t, hM, ht⟩

/-- Another name for a schema has the type of the schema; the models stay the same but for their
order, and the client stays the same. -/
theorem build_of_aliased [MediaType.Reading] [Text.Transliteration] (hd : d.WellFormed)
    (hd' : d'.WellFormed)
    (ha : d.Aliased d' fresh target M) (hacyclic : ∀ name, ¬ TransGen d.Follows name name)
    (hp : build d options = .ok p) :
    ∃ p', build d' options = .ok p' ∧
      (∃ t, Assoc.get? p'.types.registry fresh = some t ∧
        Assoc.get? p'.types.registry target = some t) ∧
      p.models.Perm p'.models ∧ p'.client = p.client := by
  have hacyclic' := ha.isAlias.acyclic ha.ne (ha.agrees.alike.acyclic hacyclic)
  obtain ⟨p', hp'⟩ := exists_build_of_aliased hd hd' ha hacyclic hp
  obtain ⟨r₁, r, hall, hclient, -, hmodels⟩ := runs_of_build hp
  obtain ⟨r₁', r', hall', hclient', htypes', hmodels'⟩ := runs_of_build hp'
  have hr := finished_of_runs hd hall hclient
  have hr' := finished_of_runs hd' hall' hclient'
  have huncut := hr.sound.uncut hacyclic
  have huncut' := hr'.sound.uncut hacyclic'
  have hback := hr'.unaliased ha.isAlias ha.ne huncut'
  have htwins : Twins d (d'.unaliased fresh target) M r (r'.forget fresh) :=
    ⟨ha.agrees.alike, hd.forest, hr.toSteady, hback.faithful, hback.types.graph, huncut, huncut'⟩
  have hsame : ∀ {t}, Assoc.get? r'.registry fresh = some t →
      Assoc.get? r'.registry target = some t :=
    fun hn => registered_alias ha.isAlias hr'.faithful huncut' hn
  refine ⟨p', hp', ?_, ?_, ?_⟩
  · obtain ⟨node, hnode, -⟩ := ha.isAlias
    obtain ⟨t, -, ht⟩ := hr'.named hnode
    rw [htypes']
    exact ⟨t, ht, hsame ht⟩
  · rw [hmodels, hmodels']
    exact (htwins.models_perm hr hback).trans
      (project_forget_perm hr'.toSteady hback.distinct ha.ne hsame)
  · have hmirrored : Client.Mirrored d d' M r r' :=
      ⟨hd.forest, hd'.forest, hr.types.graph, hr'.types.graph, htwins.mirrors⟩
    have hsameClient : Client.GiveSame r r' (Client.project d options)
        (Client.project d' options) :=
      Client.giveSame_project hmirrored ha.agrees.operations ha.agrees.tags hr.asked hr'.asked
    obtain ⟨client, hgives, hgives'⟩ := hsameClient
    rw [Client.project_again hd hall hclient] at hgives
    rw [Client.project_again hd' hall' hclient'] at hgives'
    cases hgives
    exact congrArg Prod.fst (Except.ok.inj (congrArg Prod.fst hgives'))

def linkTo (reference : String) : Json := .obj [("$ref", .str reference)]

/-- A service with one operation, and with values that references can lead to. -/
def service (shared : List Json) (schemas : Assoc String Json) (operation : Json) : Json :=
  .obj [("openapi", .str "3.0.0"), ("x", .arr shared),
    ("components", .obj [("schemas", .obj schemas)]),
    ("paths", .obj [("/owners", .obj [("post", operation)])])]

theorem extended_service {R : String → String → Prop} {added : String × Json} {shared : List Json}
    {schemas : Assoc String Json} {operation operation' : Json}
    (hkeys : (Assoc.keys (added :: schemas)).Nodup)
    (hkept : ∀ s ∈ (Json.obj [("x", .arr shared), ("schemas", .obj schemas)]).references .nowhere,
      R s s)
    (h : Json.Redirected R "post" operation operation') :
    Json.Extended R added ["components", "schemas"] (service shared schemas operation)
      (service shared (added :: schemas) operation') := by
  have hsame : Json.Redirected R "" _ _ := Json.redirected_self hkept nofun
  have hself := hsame.members
  cases hself with
  | cons hshared hself =>
    cases hself with
    | cons hschemas =>
      refine @Json.Extended.under R added [("openapi", .str "3.0.0"), ("x", .arr shared)]
        [("openapi", .str "3.0.0"), ("x", .arr shared)] _ _ _ _ _ _ (by simp [Assoc.keys]) ?_ ?_ ?_
      · exact .cons ⟨rfl, .scalar rfl rfl fun h => absurd h (by decide)⟩ (.cons hshared .nil)
      · exact .cons ⟨rfl, h.single.single⟩ .nil
      · refine @Json.Extended.under R added [] [] [] [] _ _ _ _ (by decide) .nil .nil ?_
        exact @Json.Extended.here R added [] [] _ _ hkeys .nil hschemas.2.members

/-- What can be computed of a document before it gets another name for a schema. -/
theorem exists_of_check (root : Json) (fresh target : String)
    (h : (Document.ofJson root >>= fun d => (fun p =>
      decide ((Assoc.get? d.schemas target).isSome = true ∧
        (∀ x, x < d.arena.size → ¬ d.Refers x fresh) ∧ p.types.cycles = [])) <$>
      build d {}) = .ok true) :
    ∃ d p, Document.ofJson root = .ok d ∧ build d {} = .ok p ∧
      (Assoc.get? d.schemas target).isSome ∧ (∀ x, ¬ d.Refers x fresh) ∧
      ∀ name, ¬ TransGen d.Follows name name := by
  obtain ⟨d, hd, h⟩ := except_bind_eq_ok.1 h
  obtain ⟨p, hp, hholds⟩ := except_map_eq_ok.1 h
  obtain ⟨hschema, hunused, hcycles⟩ := of_decide_eq_true hholds
  obtain ⟨r, hr, htypes, -⟩ := Resolver.finished_of_build hd hp
  have huncut : r.cycles = [] := by
    rw [htypes] at hcycles
    exact hcycles
  exact ⟨d, p, hd, hp, hschema, Document.not_refers_of_lt hunused, hr.acyclic huncut⟩

def answering (reference : String) : Json :=
  .obj [("responses", .obj [("200", .obj [("content", .obj [("application/json", .obj [
    ("schema", linkTo reference)])])])])]

def taking (reference : String) : Json :=
  .obj [("requestBody", linkTo reference), ("responses", .obj [])]

/-- Another name for a schema that is added in this way leaves what is built as it was. -/
def Transparent [MediaType.Reading] [Text.Transliteration]
    (adds : Json → Json → String → String → Prop) : Prop :=
  ∀ (root root' : Json) (fresh target : String) (d : Document) (options : Client.Options)
    (p : Projection), adds root root' fresh target → Document.ofJson root = .ok d →
    (Assoc.get? d.schemas target).isSome → (∀ x, ¬ d.Refers x fresh) →
    (∀ name, ¬ TransGen d.Follows name name) → build d options = .ok p →
    ∃ d' p', Document.ofJson root' = .ok d' ∧ build d' options = .ok p' ∧
      (∃ t, Assoc.get? p'.types.registry fresh = some t ∧
        Assoc.get? p'.types.registry target = some t) ∧
      p.models.Perm p'.models ∧ p'.client = p.client

/-- A schema at the head of 30 references, which go by names of their own. -/
def headOfChain : Assoc String Json :=
  [("Order", linkTo "#/x/0"), ("0", .obj [("type", .str "string")])]

def links : List Json :=
  (List.range 29).map (fun n => linkTo ("#/x/" ++ toString (n + 1))) ++ [.obj []]

/-- A service in the older layout that answers with what stands under this name among its schemas. -/
def olderService (schemas : Assoc String Json) : Json :=
  .obj [("swagger", .str "2.0"), ("definitions", .obj schemas),
    ("paths", .obj [("/owners", .obj [("get", .obj [("responses", .obj [
      ("200", linkTo "#/definitions")])])])])]

theorem addsAlias_chain : Document.AddsAlias
    (service links headOfChain (taking "#/components/schemas/Order"))
    (service links (("Purchase", linkTo "#/components/schemas/Order") :: headOfChain)
      (taking "#/components/schemas/Purchase")) "Purchase" "Order" := by
  refine ⟨"#/components/schemas/Order", ⟨by decide +kernel, by decide +kernel⟩, ?_⟩
  refine extended_service (by decide) (fun s _ => .kept fun _ => by decide +kernel) ?_
  refine Json.RedirectedMembers.object (.cons ⟨rfl, .single (.reference ?_)⟩
    (.cons ⟨rfl, Json.RedirectedMembers.object .nil⟩ .nil))
  exact .moved (by decide +kernel) (by decide +kernel) fun _ =>
    ⟨by decide +kernel, by decide +kernel⟩

theorem extended_olderService :
    Json.Extended (· = ·) ("schema", linkTo "#/definitions/Visit")
      (Document.schemasPath (olderService visit)) (olderService visit)
      (olderService (("schema", linkTo "#/definitions/Visit") :: visit)) := by
  have hself : ∀ {under : String} (v : Json), Json.Redirected (· = ·) under v v := fun v =>
    Json.redirected_self (fun _ _ => rfl) fun _ _ _ => rfl
  refine @Json.Extended.under _ _ [("swagger", .str "2.0")] [("swagger", .str "2.0")] _ _
    _ _ _ _ (by decide) (.cons ⟨rfl, hself _⟩ .nil) (.cons ⟨rfl, hself _⟩ .nil) ?_
  exact @Json.Extended.here _ _ [] [] _ _ (by decide) .nil (.cons ⟨rfl, hself _⟩ .nil)

end Projection

end TypedClient
