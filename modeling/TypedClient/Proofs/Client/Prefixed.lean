import TypedClient.Client.MediaTypeGrammar
import TypedClient.Proofs.Client.Apart
import TypedClient.Proofs.Client.Relocated
import TypedClient.Proofs.Naming.Joined
import TypedClient.Proofs.Resolution.Shared
import TypedClient.Text.AsciiTable

/-! A literal piece put before all paths of a document. It becomes one group around all others, and
a group that holds nothing but one subtree with groups of its own is dropped; types are resolved
without a look at paths. Main statement: the client is the same but for the addresses. -/

namespace TypedClient

def Operation.moved (start : String) (o : Operation) : Operation :=
  { o with path := "/" ++ start ++ o.path }

/-- The document with all its paths below `start`. -/
def Document.moved (start : String) (d : Document) : Document :=
  { d with operations := d.operations.map (Operation.moved start) }

def Action.moved (start : String) (a : Action) : Action := { a with url := "/" ++ start ++ a.url }

/-! ### One group around a tree -/

namespace RouteTree

theorem keepsNames_moved (start : String) : KeepsNames (Action.moved start) :=
  ⟨fun _ => rfl, fun _ _ => rfl⟩

theorem place_below (s : String) (path : List String) (a : Action) (t : RouteTree) :
    ((RouteTree.node [] [(s, t)]).place (s :: path) a).1 = .node [] [(s, (t.place path a).1)] := by
  simp [place, under, insert, groups, Assoc.modify, Assoc.get?, Assoc.put]

theorem place_below_empty (s : String) (path : List String) (a : Action) :
    (empty.place (s :: path) a).1 = .node [] [(s, (empty.place path a).1)] := by
  simp [place, under, insert, groups, Assoc.modify, Assoc.put, empty]

/-- A group that holds nothing but a tree with groups of its own is left out of the layout. -/
theorem arrange_below (describe : String → Option String) (s : String) {t : RouteTree}
    (hactions : t.actions = []) (hgroups : t.groups ≠ []) :
    arrange describe (.node [] [(s, t)]) = arrange describe t := by
  have hdrop : dropCommon (.node [] [(s, t)]) = dropCommon t := by
    rw [dropCommon, dropOnly, if_pos (by simp [hactions, hgroups]), Option.getD_some]
  rw [arrange, hdrop, ← arrange]

end RouteTree

namespace Client

open RouteTree

theorem placeEach_below (s : String) (entries : List (List String × Action)) (t : RouteTree)
    (warnings warnings' : List Warning) :
    (placeEach (entries.map fun e => (s :: e.1, e.2)) (.node [] [(s, t)], warnings)).1 =
      .node [] [(s, (placeEach entries (t, warnings')).1)] := by
  induction entries generalizing t warnings warnings' with
  | nil => rfl
  | cons e rest ih => rw [List.map_cons, placeEach, placeEach, place_below, ih]

theorem placeEach_below_empty (s : String) {entries : List (List String × Action)}
    (hne : entries ≠ []) (warnings warnings' : List Warning) :
    (placeEach (entries.map fun e => (s :: e.1, e.2)) (empty, warnings)).1 =
      .node [] [(s, (placeEach entries (empty, warnings')).1)] := by
  obtain ⟨e, rest, rfl⟩ := List.exists_cons_of_ne_nil hne
  rw [List.map_cons, placeEach, placeEach, place_below_empty]
  exact placeEach_below s rest _ _ _

/-- Actions that all have a group to stand in leave no action outside of groups. -/
theorem actions_placeEach {entries : List (List String × Action)}
    (hpaths : ∀ e ∈ entries, e.1 ≠ []) :
    (placeEach entries (empty, [])).1.actions = [] := by
  by_contra hne
  have hmem := (mem_routes_placeEach entries (empty, []) tidy_empty).1 (nil_mem_routes.2 hne)
  rcases hmem with hmem | hmem
  · obtain ⟨e, he, hnil⟩ := List.mem_map.1 hmem
    exact hpaths e he hnil
  · exact absurd hmem (by simp [empty, routes, routesBelow])

theorem groups_placeEach {entries : List (List String × Action)} (hne : entries ≠ [])
    (hpaths : ∀ e ∈ entries, e.1 ≠ []) :
    (placeEach entries (empty, [])).1.groups ≠ [] := by
  obtain ⟨e, he⟩ := List.exists_mem_of_ne_nil entries hne
  obtain ⟨s, path, hpath⟩ := List.exists_cons_of_ne_nil (hpaths e he)
  have hmem := (mem_routes_placeEach entries (empty, []) tidy_empty).2
    (.inl (List.mem_map_of_mem he))
  rw [hpath] at hmem
  obtain ⟨g, hg, -⟩ := cons_mem_routes.1 hmem
  exact List.ne_nil_of_mem hg

/-- Changing actions and putting a group around all of them does to the layout of a tree what
changing them does. -/
theorem arrange_placeEach_below (describe : String → Option String) {f : Action → Action}
    (hf : KeepsNames f) (s : String) {entries : List (List String × Action)} (hne : entries ≠ [])
    (hpaths : ∀ e ∈ entries, e.1 ≠ []) :
    arrange describe (placeEach (entries.map fun e => (s :: e.1, f e.2)) (empty, [])).1 =
      (arrange describe (placeEach entries (empty, [])).1).mapActions f := by
  have hchanged : entries.map (fun e => (s :: e.1, f e.2)) =
      (entries.map fun e => (e.1, f e.2)).map fun e => (s :: e.1, e.2) := by
    rw [List.map_map]
    rfl
  have hplaced := placeEach_mapActions hf entries empty []
  rw [mapActions_empty] at hplaced
  rw [hchanged, placeEach_below_empty s (fun hnil => hne (List.map_eq_nil_iff.1 hnil)) [] [],
    hplaced, arrange_below, arrange_mapActions]
  · rw [actions_mapActions, actions_placeEach hpaths, List.map_nil]
  · rw [groups_mapActions, mapAll_eq_map]
    exact fun hnil => groups_placeEach hne hpaths (List.map_eq_nil_iff.1 hnil)

/-! ### What is made of an operation -/

/-- What is made of an operation does not depend on the others. -/
theorem actionOf_withOperations [MediaType.Reading] [Text.Transliteration] {d : Document}
    (hd : d.Forest) (operations : List Operation) :
    actionOf { d with operations } = actionOf d := by
  have hnode := Resolver.node_withOperations hd operations
  have hspell : spellNode { d with operations } = spellNode d := by
    funext id
    rw [spellNode, spellNode, hnode]
  have hparameter : parameterOf { d with operations } = parameterOf d := by
    funext p
    rw [parameterOf, parameterOf, hspell]
  have hrequest : requestOf { d with operations } = requestOf d := by
    funext b
    cases b with
    | none => rfl
    | some b => rw [requestOf, requestOf, hspell, hnode]
  have hreturn : returnTypeOf { d with operations } = returnTypeOf d := by
    funext b
    cases b with
    | none => rfl
    | some b => rw [returnTypeOf, returnTypeOf, hspell]
  funext options o
  simp only [actionOf, parametersIn, hparameter, hrequest, hreturn]

section Moved

variable [MediaType.Reading] [Text.Transliteration] {d : Document} {start : String} {o : Operation}

theorem submitted_moved (hd : d.Forest) {options : Options} (hhook : options.hook = none)
    (hlast : (routeOf (o.moved start)).2 = (routeOf o).2) :
    submitted (d.moved start) options (o.moved start) =
      Action.moved start <$> submitted d options o := by
  have hdocument : actionOf (d.moved start) = actionOf d := actionOf_withOperations hd _
  rw [submitted, submitted, hdocument]
  simp only [actionOf, parametersIn, hlast, Options.hooked, hhook, bind_assoc, pure_bind, map_bind,
    map_pure]
  simp only [Operation.moved, Action.moved]

theorem mapM_submitted_moved (hd : d.Forest) {options : Options} (hhook : options.hook = none)
    {ops : List Operation} (hlast : ∀ o ∈ ops, (routeOf (o.moved start)).2 = (routeOf o).2) :
    (ops.map (Operation.moved start)).mapM (submitted (d.moved start) options) =
      List.map (Action.moved start) <$> ops.mapM (submitted d options) := by
  induction ops with
  | nil => rw [List.map_nil, List.mapM_nil, List.mapM_nil, map_pure, List.map_nil]
  | cons o rest ih =>
    rw [List.forall_mem_cons] at hlast
    rw [List.map_cons, List.mapM_cons, List.mapM_cons, submitted_moved hd hhook hlast.1,
      ih hlast.2]
    simp only [map_bind, map_pure, bind_map_left, List.map_cons]

end Moved

/-! ### The client -/

section Grouped

variable [Text.Transliteration]

/-- A path with a group to stand in, whose first piece begins a segment. -/
structure Grouped (path : String) : Prop where
  rooted : path.toList.head? = some '/'
  begins : Route.Begins path.toList
  deep : 2 ≤ (Route.segments path).length

instance (path : String) : Decidable (Grouped path) :=
  decidable_of_iff (path.toList.head? = some '/' ∧ Route.Begins path.toList ∧
    2 ≤ (Route.segments path).length) ⟨fun h => ⟨h.1, h.2.1, h.2.2⟩, fun h => ⟨h.1, h.2, h.3⟩⟩

theorem routeOf_moved {start : String} (hstart : Route.Literal start) {o : Operation}
    (ho : Grouped o.path) : routeOf (o.moved start) =
      (Naming.pascalCase start :: (routeOf o).1, (routeOf o).2) := by
  obtain ⟨cs, hrooted⟩ := List.head?_eq_some_iff.1 ho.rooted
  have hne : Route.segments o.path ≠ [] := List.ne_nil_of_length_pos (by have := ho.deep; omega)
  have hsegments := hstart.segments_append hrooted ho.begins
  rw [routeOf, Operation.moved, hsegments, List.dropLast_cons_of_ne_nil hne, routeOf,
    List.getLast?_cons, List.getLast?_eq_some_getLast hne]
  rfl

theorem ne_nil_of_grouped {o : Operation} (ho : Grouped o.path) : (routeOf o).1 ≠ [] := by
  intro hnil
  have hlength := congrArg List.length hnil
  have hdeep := ho.deep
  rw [routeOf, List.length_dropLast, List.length_nil] at hlength
  omega

/-- **A document's client with all paths below one more literal piece is the client as it was, with
the piece before each address.** It is made of the same types, and fails where it failed. -/
theorem project_moved [MediaType.Reading] {root : Json} {d : Document}
    (h : Document.ofJson root = .ok d) {options : Options} (hhook : options.hook = none) {start : String}
    (hstart : Route.Literal start) (hsome : d.operations ≠ [])
    (hpaths : ∀ o ∈ d.operations, Grouped o.path) :
    Prod.fst <$> project (d.moved start) options =
      (fun made => made.1.mapActions (Action.moved start)) <$> project d options := by
  have hd := Document.forest_of_ofJson h
  have hlast : ∀ o ∈ d.operations, (routeOf (o.moved start)).2 = (routeOf o).2 :=
    fun o ho => by rw [routeOf_moved hstart (hpaths o ho)]
  have hoperations : (d.moved start).operations = d.operations.map (Operation.moved start) := rfl
  have hdescribe : (d.moved start).tagDescription = d.tagDescription := rfl
  rw [project, project, placeAll_eq, placeAll_eq, hoperations, mapM_submitted_moved hd hhook hlast,
    hdescribe]
  simp only [map_bind, bind_assoc, bind_map_left, pure_bind, map_pure, List.map_map]
  refine bind_congr_of_outcome fun r made t hmade => ?_
  obtain ⟨hfst, -⟩ := map_zip_of_outcome_mapM hmade fun o => (routeOf o).1
  set paths := d.operations.map fun o => (routeOf o).1 with hpathsOf
  have hne : paths.zip made ≠ [] := by
    intro hnil
    rw [hnil] at hfst
    exact hsome (List.map_eq_nil_iff.1 hfst.symm)
  have hplaces : ∀ e ∈ paths.zip made, e.1 ≠ [] := by
    intro e he
    obtain ⟨o, ho, hroute⟩ := List.mem_map.1 (hfst ▸ List.mem_map_of_mem (f := Prod.fst) he)
    rw [← hroute]
    exact ne_nil_of_grouped (hpaths o ho)
  have hroutes : d.operations.map ((fun o => (routeOf o).1) ∘ Operation.moved start) =
      paths.map (Naming.pascalCase start :: ·) := by
    rw [hpathsOf, List.map_map]
    exact List.map_congr_left fun o ho => by
      rw [Function.comp_apply, routeOf_moved hstart (hpaths o ho), Function.comp_apply]
  rw [hroutes, List.zip_map]
  exact congrArg pure (arrange_placeEach_below d.tagDescription (keepsNames_moved start)
    (Naming.pascalCase start) hne hplaces)

end Grouped

/-- Operations that have a group in common already, one of them under a parameter. -/
def kennel : Json :=
  let member (method : String) := (method, Json.obj [("responses", .obj [])])
  .obj [("openapi", .str "3.0.0"), ("paths", .obj [
    ("/kennel/dogs/list", .obj [member "get"]),
    ("/kennel/dogs/{dogId}/toys", .obj [member "get", member "post"]),
    ("/kennel/cats/list", .obj [member "get"])])]

theorem project_moved_kennel :
    ∃ d api, Document.ofJson kennel = .ok d ∧ d.operations.length = 4 ∧
      (outcome (Prod.fst <$> project d {}) {}).1 = .ok api ∧
      api.controllers.map Controller.name = ["Dogs", "DogsByDogId", "Cats"] ∧
      Route.Literal "v1" ∧ (∀ o ∈ d.operations, Grouped o.path) ∧
      (outcome (Prod.fst <$> project (d.moved "v1") {}) {}).1 =
        .ok (api.mapActions (Action.moved "v1")) := by
  have hrun : (Document.ofJson kennel >>= fun d => (fun made =>
      decide (d.operations.length = 4 ∧ (∀ o ∈ d.operations, Grouped o.path) ∧
        made.1.controllers.map Controller.name = ["Dogs", "DogsByDogId", "Cats"])) <$>
          (outcome (project d {}) {}).1) = .ok true := by decide +kernel
  obtain ⟨d, hd, hmade⟩ := except_bind_eq_ok.1 hrun
  obtain ⟨made, hmade, hholds⟩ := except_bind_eq_ok.1 hmade
  obtain ⟨hlength, hpaths, hnames⟩ := of_decide_eq_true (Except.ok.inj hholds)
  have hplain : ("v1".toList.all fun c =>
      decide (c ∉ ['{', '}', '/', '\\'] ∧ Text.isBlank c = false)) = true := by decide +kernel
  have hstart : Route.Literal "v1" :=
    ⟨fun c hc => of_decide_eq_true (List.all_eq_true.1 hplain c hc), by decide +kernel⟩
  have hsome : d.operations ≠ [] := List.ne_nil_of_length_pos (by omega)
  refine ⟨d, made.1, hd, hlength, ?_, hnames, hstart, hpaths, ?_⟩
  · rw [outcome_map, hmade]
    rfl
  · rw [project_moved hd rfl hstart hsome hpaths, outcome_map, hmade]
    rfl

end Client

end TypedClient
