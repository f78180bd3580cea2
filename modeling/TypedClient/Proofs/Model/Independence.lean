import TypedClient.Client.MediaTypeGrammar
import TypedClient.Proofs.Document.Named
import TypedClient.Proofs.Model.Mirror
import TypedClient.Proofs.Model.References
import TypedClient.Proofs.Resolution.Shared
import TypedClient.Text.AsciiTable

/-! Models do not depend on operations. The named schemas of a document are resolved first, all of
them, and that reads nothing else of the document. After that every reference meets a registered
schema, so nothing is registered or cut any more, and the types that are there stay as they are; what
operations add comes after them. -/

namespace TypedClient

open Relation

/-! ### Reading -/

namespace Document

variable {root root' : Json} {d d' : Document}

/-- The named schemas are read first, and what is read of them stays. -/
theorem schemas_of_ofJson (h : ofJson root = .ok d) :
    ∃ t, outcome (readSchemas (namedSchemas root)) {} = (.ok d.schemas, t) ∧
      t.Kept d.arena := by
  have hlayout : ∀ {version root}, readLayout version root = .ok d →
      ∃ t, outcome (readSchemas (schemasOf root)) {} = (.ok d.schemas, t) ∧ t.Kept d.arena := by
    intro version root h
    obtain ⟨t, hschemas, hpaths⟩ := steps_of_readLayout h
    exact ⟨t, hschemas, keeps_readPaths root _ _ _ hpaths⟩
  unfold ofJson at h
  unfold namedSchemas
  split at h
  · next hold =>
    rw [if_pos hold]
    split at h
    · next upgraded hupgraded =>
      rw [← schemasOf_upgrade hupgraded]
      exact hlayout h
    · cases h
  · next hnew =>
    rw [if_neg hnew]
    split at h
    · exact hlayout h
    · cases h

/-- Documents with the same named schemas share them. -/
theorem shares_of_ofJson (h : ofJson root = .ok d) (h' : ofJson root' = .ok d')
    (hschemas : namedSchemas root = namedSchemas root') : ∃ bound, d.Shares d' bound := by
  obtain ⟨t, hread, hkept⟩ := schemas_of_ofJson h
  obtain ⟨t', hread', hkept'⟩ := schemas_of_ofJson h'
  rw [← hschemas, hread] at hread'
  obtain ⟨hsame, rfl⟩ := Prod.mk.inj hread'
  have htrees := plants_readSchemas (namedSchemas root) [] {} {} .none
  rw [hread] at htrees
  refine ⟨t.size, (Except.ok.inj hsame).symm, fun {id} hid => ?_, fun {name id} hn => ?_⟩
  · have hnode : t.get? id = some t.nodes[id] := Array.getElem?_eq_getElem hid
    rw [Arena.get, Arena.get, hkept id _ hnode, hkept' id _ hnode]
  · exact Arena.Trees.lt_size_of_root htrees
      (List.mem_map.2 ⟨(name, id), Assoc.mem_of_get? hn, rfl⟩)

end Document

/-! ### Calls after all schemas -/

namespace Resolver

variable {d : Document} {may : String → Prop} {r r' r'' : Resolver}

/-- All named schemas are registered. -/
def Registered (d : Document) (r : Resolver) : Prop :=
  ∀ {name id}, Assoc.get? d.schemas name = some id → Assoc.get? r.registry name ≠ none

theorem ne_none_of_isCycle (hall : Registered d r) {cycle : List String} (h : IsCycle d cycle) :
    ∃ name ∈ cycle.getLast?, Assoc.get? r.registry name ≠ none := by
  obtain ⟨name, path, rfl, -, hchain⟩ := h
  refine ⟨name, List.getLast?_concat, ?_⟩
  obtain ⟨second, rest, hrest⟩ : ∃ second rest, path ++ [name] = second :: rest :=
    List.exists_cons_of_ne_nil (List.append_ne_nil_of_right_ne_nil _ (List.cons_ne_nil _ _))
  rw [List.cons_append, hrest, List.isChain_cons_cons] at hchain
  obtain ⟨_, ⟨root, hroot, -⟩, -⟩ := hchain.1
  exact hall hroot

/-- Where all named schemas are registered, a step registers and cuts nothing. -/
theorem Step.settled (hall : Registered d r) (h : Step d may r r') :
    r'.registry = r.registry ∧ r'.cycles = r.cycles := by
  cases h with
  | types h => exact h.same.2
  | cut cycle hcycle hnew =>
    obtain ⟨name, hname, hregistered⟩ := ne_none_of_isCycle hall hcycle
    exact absurd (hnew name hname) hregistered
  | remember => exact ⟨rfl, rfl⟩
  | register name node t _ hnode hnew _ => exact absurd hnew (hall hnode)

theorem settled_of_steps (hall : Registered d r) (h : ReflTransGen (Step d may) r r') :
    r'.registry = r.registry ∧ r'.cycles = r.cycles := by
  refine invariant_of_steps (I := fun r' => r'.registry = r.registry ∧ r'.cycles = r.cycles)
    (fun {s s'} hstep hsettled => ?_) h ⟨rfl, rfl⟩
  have hall' : Registered d s := fun hn => by
    rw [hsettled.1]
    exact hall hn
  obtain ⟨hregistry, hcycles⟩ := hstep.settled hall'
  exact ⟨hregistry.trans hsettled.1, hcycles.trans hsettled.2⟩

theorem Asks.steps (hd : d.Forest) {ids : List NodeId} (hids : ∀ id ∈ ids, ¬ d.Declares id)
    (hb : r.Bounded) (h : Asks d ids r r') : ReflTransGen (Step d fun _ => True) r r' := by
  induction h with
  | nil => exact .refl
  | @cons id ids t r r₁ r₂ ho hrest ih =>
    rw [List.forall_mem_cons] at hids
    have hroot : ∀ name, Assoc.get? d.schemas name ≠ some id := fun name hn => hids.1 ⟨name, hn⟩
    obtain ⟨hl, -⟩ := resolves_node hd (route_nil d id) (fun name hn => absurd hn (hroot name)) r
      hb fun name hn => absurd hn (hroot name)
    rw [show (outcome (resolveNode d [] id) r).2 = r₁ from congrArg Prod.snd ho] at hl
    have hsteps := (hl.mono fun _ _ => trivial : Leads d (fun _ => True) r r₁).steps
    exact hsteps.trans (ih hids.2 (bounded_of_steps hsteps hb))

end Resolver

/-! ### Models of a graph that has grown -/

/-- A type matches itself where what it refers to does. -/
theorem TypeInfo.matches_self {R : TypeId → TypeId → Prop} {t : TypeInfo}
    (h : ∀ u ∈ t.references, R u u) : t.Matches R t := by
  have hoption : ∀ {type : Option TypeId}, type.toList ⊆ t.references →
      Option.Rel R type type := by
    intro type hsub
    cases type with
    | none => exact .none
    | some u => exact .some (h u (hsub (List.mem_singleton.2 rfl)))
  refine ⟨rfl, hoption fun u hu => ?_, hoption fun u hu => ?_, hoption fun u hu => ?_,
    List.forall₂_same.2 fun u hu => h u ?_, List.forall₂_same.2 fun p hp => ⟨rfl, h _ ?_, rfl⟩⟩
  all_goals simp only [TypeInfo.references, List.mem_append, List.mem_map]
  · exact .inl (.inl (.inl (.inl hu)))
  · exact .inl (.inl (.inl (.inr hu)))
  · exact .inl (.inl (.inr hu))
  · exact .inl (.inr hu)
  · exact .inr ⟨p, hp, rfl⟩

/-- A graph that grows mirrors the types that were there before. -/
theorem Resolver.Grows.mirrors {r r' : Resolver} {held : NodeId → Prop} (hg : Grows held r r')
    (hordered : r.graph.Ordered) :
    TypeGraph.Mirrors r'.graph r.graph fun t t' => t = t' ∧ t < r.graph.size := by
  rintro t _ ⟨rfl, ht⟩
  obtain ⟨info, hinfo⟩ := TypeGraph.exists_get? ht
  refine ⟨info, info, (hg.types ht).trans hinfo, hinfo, TypeInfo.matches_self fun u hu => ?_⟩
  exact ⟨rfl, Nat.lt_trans (hordered.older hinfo u hu) ht⟩

namespace Model

open Resolver

variable {d : Document} {r r' : Resolver} {held : NodeId → Prop}

theorem groupBy_congr {α : Type} {key key' : α → String} {items : List α}
    (h : ∀ a ∈ items, key a = key' a) : groupBy key items = groupBy key' items := by
  unfold groupBy
  rw [List.foldl_ext _ (fun m a => Assoc.modify m (key' a) [] fun group => group ++ [a]) _
    fun m a ha => by rw [h a ha]]

/-- A graph that grows keeps the models of the types that were registered before. -/
theorem project_of_grows (hs : Steady d r) (hs' : Steady d r') (hg : Grows held r r')
    (hregistry : r'.registry = r.registry) :
    project (Projection.typesOf r') = project (Projection.typesOf r) := by
  have hordered := hs.types.graph
  have hbound : ∀ t ∈ (Assoc.values r.registry).eraseDups, t < r.graph.size := by
    intro t ht
    obtain ⟨⟨name, t⟩, hmem, rfl⟩ := List.mem_map.1 (List.mem_eraseDups.1 ht)
    exact hs.faithful.bounded.registry (Assoc.get?_of_mem hs.distinct hmem)
  have htypes : modelTypes (Projection.typesOf r') = modelTypes (Projection.typesOf r) := by
    unfold modelTypes
    show ((Assoc.values r'.registry).eraseDups).filter _ = _
    rw [hregistry]
    refine List.filter_congr fun t ht => ?_
    show (r'.graph.get t).isModel = (r.graph.get t).isModel
    rw [hg.get (hbound t ht)]
  have hmodel : ∀ t ∈ modelTypes (Projection.typesOf r), t < r.graph.size :=
    fun t ht => hbound t (List.mem_of_mem_filter ht)
  have hgroups : groupBy (fun t => (r'.graph.get t).fileKey) (modelTypes (Projection.typesOf r)) =
      groupBy (fun t => (r.graph.get t).fileKey) (modelTypes (Projection.typesOf r)) :=
    groupBy_congr fun t ht => by rw [hg.get (hmodel t ht)]
  unfold project
  rw [htypes]
  refine (congrArg _ hgroups).trans (List.map_congr_left fun t ht => ?_)
  exact entry_mirrored (hg.mirrors hordered) hs'.types.graph hordered
    ⟨rfl, hmodel t ((groupBy_perm _ _).mem_iff.1 ht)⟩

end Model

/-! ### Projections -/

namespace Projection

open Model Resolver

variable {d d' : Document} {p p' : Projection} {options options' : Client.Options}
  {root root' : Json}

/-- What is registered and cut, and all models, are there as soon as all named schemas have been
resolved. -/
theorem eq_of_all [MediaType.Reading] [Text.Transliteration] (h : Document.ofJson root = .ok d)
    (hp : build d options = .ok p) :
    ∃ r, outcome (all d) {} = (.ok (), r) ∧ p.types.registry = r.registry ∧
      p.types.cycles = r.cycles ∧ p.models = project (typesOf r) := by
  have hd := Document.wellFormed_of_ofJson h
  obtain ⟨r₁, r, hall, hclient, htypes, hmodels⟩ := runs_of_build hp
  obtain ⟨hs₁, hregistered⟩ := steady_all hd.forest (steady_initial d) hall
  have hasks := (Client.performs_project options r₁ r).1 ⟨_, hclient⟩
  obtain ⟨hs, hg, -⟩ := steady_asks hd.forest (fun id hid => asked_apart hd hid) hs₁ hasks
  have hregistered : Registered d r₁ := fun hn =>
    Option.isSome_iff_ne_none.1 (hregistered _ (Assoc.mem_of_get? hn))
  obtain ⟨hregistry, hcycles⟩ := settled_of_steps hregistered
    (hasks.steps hd.forest (fun id hid => (asked_apart hd hid).1) hs₁.faithful.bounded)
  refine ⟨r₁, hall, ?_, ?_, hmodels.trans (project_of_grows hs₁ hs hg hregistry)⟩
  · rw [htypes]
    exact hregistry
  · rw [htypes]
    exact hcycles

/-- **Documents with the same named schemas have the same registered types, the same cycles and the
same models, whatever their operations are.** -/
theorem models_independent [MediaType.Reading] [Text.Transliteration]
    (h : Document.ofJson root = .ok d) (h' : Document.ofJson root' = .ok d')
    (hschemas : Document.namedSchemas root = Document.namedSchemas root')
    (hp : build d options = .ok p) (hp' : build d' options' = .ok p') :
    p.types.registry = p'.types.registry ∧ p.types.cycles = p'.types.cycles ∧
      p.models = p'.models := by
  obtain ⟨r, hall, hregistry, hcycles, hmodels⟩ := eq_of_all h hp
  obtain ⟨r', hall', hregistry', hcycles', hmodels'⟩ := eq_of_all h' hp'
  obtain ⟨bound, hs⟩ := Document.shares_of_ofJson h h' hschemas
  rw [all_shared (Document.forest_of_ofJson h) (Document.forest_of_ofJson h') hs, hall] at hall'
  obtain rfl : r = r' := congrArg Prod.snd hall'
  exact ⟨hregistry.trans hregistry'.symm, hcycles.trans hcycles'.symm,
    hmodels.trans hmodels'.symm⟩

/-- A document with a shelter and its animals, and these paths. -/
def shelter (paths : Json) : Json := .obj [("openapi", .str "3.0.0"), ("components", .obj [
  ("schemas", .obj [
    ("Shelter", .obj [("type", .str "object"), ("properties", .obj [
      ("animals", .obj [("type", .str "array"),
        ("items", .obj [("$ref", .str "#/components/schemas/Animal")])])])]),
    ("Animal", .obj [("type", .str "object"), ("properties", .obj [
      ("home", .obj [("$ref", .str "#/components/schemas/Shelter")])])])])]),
  ("paths", paths)]

/-- One operation, which answers with an object of its own. -/
def adoptions : Json := .obj [("/adoptions", .obj [("get", .obj [("responses", .obj [
  ("200", .obj [("content", .obj [("application/json", .obj [("schema", .obj [
    ("type", .str "object"), ("properties", .obj [
      ("animal", .obj [("$ref", .str "#/components/schemas/Animal")])])])])])])])])])]

theorem models_independent_shelter :
    ∃ d d' p p', Document.ofJson (shelter adoptions) = .ok d ∧
      Document.ofJson (shelter (.obj [])) = .ok d' ∧ build d {} = .ok p ∧ build d' {} = .ok p' ∧
      p.types.graph.size = p'.types.graph.size + 1 ∧
      p.types.cycles = [["Shelter", "Animal", "Shelter"]] ∧
      p.types.registry = p'.types.registry ∧ p.types.cycles = p'.types.cycles ∧
      p.models = p'.models := by
  have hrun : (Document.ofJson (shelter adoptions) >>= fun d => (fun p =>
      decide (p.types.graph.size = 5 ∧ p.types.cycles = [["Shelter", "Animal", "Shelter"]])) <$>
        build d {}) = .ok true := by decide +kernel
  have hrun' : (Document.ofJson (shelter (.obj [])) >>= fun d => (fun p =>
      decide (p.types.graph.size = 4)) <$> build d {}) = .ok true := by decide +kernel
  obtain ⟨d, p, hd, hp, hholds⟩ := exists_of_run hrun
  obtain ⟨d', p', hd', hp', hholds'⟩ := exists_of_run hrun'
  obtain ⟨hsize, hcycles⟩ := of_decide_eq_true hholds
  refine ⟨d, d', p, p', hd, hd', hp, hp', ?_, hcycles, models_independent hd hd' rfl hp hp'⟩
  rw [hsize, of_decide_eq_true hholds']

end Projection

end TypedClient
