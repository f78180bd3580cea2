import TypedClient.Client.MediaTypeGrammar
import TypedClient.Proofs.Client.CommonStart
import TypedClient.Proofs.Client.Conservation
import TypedClient.Proofs.Client.Places
import TypedClient.Proofs.Naming.Segments
import TypedClient.Text.AsciiTable

/-! Whether the functions of a client have places of their own. A name is unique in its group of the
route tree, but in a namespace the segments of a route are written in a row, where two routes can
look the same: `A` and `AA` do below the namespace `A` that holds actions itself. Main statement:
the places of a client differ exactly where no two routes of one namespace are written alike. -/

namespace TypedClient

/-! ### Names of controllers -/

namespace RouteTree

variable (describe : String → Option String)

/-- How the controller of a route is called in the namespace that it starts from. -/
def controllerName (space : String) : List String → String
  | [] => space
  | r => String.join r

theorem names_ownController (name : String) (actions : Assoc String Action) :
    (ownController describe name actions).map Controller.name =
      if actions.isEmpty then [] else [name] := by
  rw [ownController]
  split <;> rfl

mutual

theorem names_flatten : ∀ (name : String) (t : RouteTree),
    (flatten describe name t).map Controller.name = (routes t).map (name ++ String.join ·)
  | name, .node actions groups => by
    rw [flatten, List.map_append, names_ownController, names_flattenAll name groups, routes,
      List.map_append]
    split <;> simp

theorem names_flattenAll : ∀ (start : String) (groups : List (String × RouteTree)),
    (flattenAll describe start groups).map Controller.name =
      (routesBelow groups).map (start ++ String.join ·)
  | _, [] => rfl
  | start, (name, t) :: rest => by
    rw [flattenAll, List.map_append, names_flatten (start ++ name) t, names_flattenAll start rest,
      routesBelow, List.map_append, List.map_map]
    simp [Function.comp_def, String.join_cons, String.append_assoc]

end

theorem names_namespaceOf (name : String) (t : RouteTree) :
    (namespaceOf describe name t).controllers.map Controller.name =
      (routes t).map (controllerName name) := by
  obtain ⟨actions, groups⟩ := t
  rw [namespaceOf, List.map_append, names_ownController, names_flattenAll, routes, List.map_append]
  congr 1
  · cases actions <;> rfl
  · refine List.map_congr_left fun r hr => ?_
    cases r with
    | nil => exact absurd hr (nil_notMem_routesBelow groups)
    | cons s r => simp [controllerName]

/-! ### Actions of controllers -/

theorem nodup_names_of_tidy {t : RouteTree} (ht : Tidy t) :
    ((Assoc.values t.actions).map Action.name).Nodup := by
  obtain ⟨hkeys, hnames, -⟩ := (tidy_iff t).1 ht
  have hmap : (Assoc.values t.actions).map Action.name = Assoc.keys t.actions := by
    rw [Assoc.values, List.map_map]
    exact List.map_congr_left hnames
  rwa [hmap]

theorem nodup_names_of_mem_ownController {name : String} {t : RouteTree} (ht : Tidy t)
    {c : Controller} (hc : c ∈ ownController describe name t.actions) :
    (c.actions.map Action.name).Nodup := by
  rw [ownController] at hc
  split at hc
  · exact absurd hc List.not_mem_nil
  · rw [List.mem_singleton.1 hc]
    exact nodup_names_of_tidy ht

mutual

theorem nodup_names_of_mem_flatten : ∀ (name : String) (t : RouteTree), Tidy t →
    ∀ {c : Controller}, c ∈ flatten describe name t → (c.actions.map Action.name).Nodup
  | name, .node actions groups, ht, c, hc => by
    rw [flatten, List.mem_append] at hc
    rcases hc with hc | hc
    · exact nodup_names_of_mem_ownController describe ht hc
    · exact nodup_names_of_mem_flattenAll name groups ht.2.2.2 hc

theorem nodup_names_of_mem_flattenAll : ∀ (start : String) (groups : List (String × RouteTree)),
    TidyAll groups → ∀ {c : Controller}, c ∈ flattenAll describe start groups →
      (c.actions.map Action.name).Nodup
  | _, [], _, c, hc => absurd hc List.not_mem_nil
  | start, (name, t) :: rest, ⟨ht, hrest⟩, c, hc => by
    rw [flattenAll, List.mem_append] at hc
    rcases hc with hc | hc
    · exact nodup_names_of_mem_flatten (start ++ name) t ht hc
    · exact nodup_names_of_mem_flattenAll start rest hrest hc

end

/-! ### The whole layout -/

theorem tidy_arrange {t : RouteTree} (ht : Tidy (dropCommon t))
    (hnamed : ∀ g ∈ (dropCommon t).groups, g.1 ≠ "" ∧ '.' ∉ g.1.toList) :
    (arrange describe t).Tidy := by
  obtain ⟨-, -, hkeys, hall⟩ := (tidy_iff _).1 ht
  have hsub (p : String × RouteTree → Bool) :
      (((dropCommon t).groups.filter p).map Prod.fst).Nodup :=
    hkeys.sublist (List.filter_sublist.map Prod.fst)
  rw [tidyAll_iff] at hall
  constructor <;> simp only [arrange, List.partition_eq_filter_filter, List.map_map]
  · exact nodup_names_of_tidy ht
  · exact hsub _
  · exact hsub _
  · rw [List.forall_mem_map]
    exact fun g hg => nodup_names_of_tidy (hall g (List.mem_of_mem_filter hg))
  · rw [List.forall_mem_map]
    intro g hg c hc
    have htidy := hall g (List.mem_of_mem_filter hg)
    rcases List.mem_append.1 hc with hc | hc
    · exact nodup_names_of_mem_ownController describe htidy hc
    · exact nodup_names_of_mem_flattenAll describe "" g.2.groups ((tidy_iff _).1 htidy).2.2.2 hc
  · rw [List.forall_mem_map]
    exact fun g hg => hnamed g (List.mem_of_mem_filter hg)
  · rw [List.forall_mem_map]
    exact fun g hg => (hnamed g (List.mem_of_mem_filter hg)).2

/-- The controller of a route that no start is dropped from any more, as it is called in its
namespace. -/
def controllerOf : List String → String
  | [] => ""
  | space :: below => controllerName space below

/-- In a group without groups there is one route only. -/
theorem eq_nil_of_groups_isEmpty {t : RouteTree} (h : t.groups.isEmpty) {r : List String}
    (hr : r ∈ routes t) : r = [] := by
  cases r with
  | nil => rfl
  | cons s r =>
    obtain ⟨g, hg, -⟩ := cons_mem_routes.1 hr
    rw [List.isEmpty_iff.1 h] at hg
    exact absurd hg List.not_mem_nil

/-- Controllers have names of their own in each namespace where routes with the same first segment
are told apart by what their controllers are called. -/
theorem nodup_names_arrange {t : RouteTree} (ht : Tidy (dropCommon t)) :
    (∀ n ∈ (arrange describe t).namespaces, (n.controllers.map Controller.name).Nodup) ↔
      ∀ r ∈ routes (dropCommon t), ∀ q ∈ routes (dropCommon t),
        r.head? = q.head? → controllerOf r = controllerOf q → r = q := by
  have hall := (tidyAll_iff _).1 ((tidy_iff _).1 ht).2.2.2
  have hkeys := ((tidy_iff _).1 ht).2.2.1
  simp only [arrange, List.partition_eq_filter_filter, List.forall_mem_map, names_namespaceOf,
    List.mem_filter]
  constructor
  · intro h r hr q hq hhead hname
    cases r with
    | nil =>
      cases q with
      | nil => rfl
      | cons => cases hhead
    | cons first r =>
      cases q with
      | nil => cases hhead
      | cons other q =>
        obtain rfl : first = other := Option.some.inj hhead
        obtain ⟨g, hg, rfl, hr'⟩ := cons_mem_routes.1 hr
        obtain ⟨g', hg', hfst, hq'⟩ := cons_mem_routes.1 hq
        cases List.inj_on_of_nodup_map hkeys hg' hg hfst
        by_cases hempty : g.2.groups.isEmpty
        · rw [eq_nil_of_groups_isEmpty hempty hr', eq_nil_of_groups_isEmpty hempty hq']
        · rw [List.inj_on_of_nodup_map (h g ⟨hg, by simpa using hempty⟩) hr' hq' hname]
  · intro h g hg
    refine (nodup_routes g.2 (hall g hg.1)).map_on fun r hr q hq hname => ?_
    have hr := cons_mem_routes.2 ⟨g, hg.1, rfl, hr⟩
    have hq := cons_mem_routes.2 ⟨g, hg.1, rfl, hq⟩
    exact (List.cons.inj (h _ hr _ hq rfl hname)).2

end RouteTree

/-! ### Places of a client -/

namespace Client

open RouteTree

theorem tidy_placeEach (entries : List (List String × Action)) (placed : RouteTree × List Warning)
    (ht : Tidy placed.1) : Tidy (placeEach entries placed).1 := by
  induction entries generalizing placed with
  | nil => exact ht
  | cons e rest ih => exact ih _ (tidy_insert _ e.1 ht)

theorem mem_routes_placeEach (entries : List (List String × Action))
    (placed : RouteTree × List Warning) (ht : Tidy placed.1) {r : List String} :
    r ∈ routes (placeEach entries placed).1 ↔ r ∈ entries.map Prod.fst ∨ r ∈ routes placed.1 := by
  induction entries generalizing placed with
  | nil => simp [placeEach]
  | cons e rest ih =>
    rw [placeEach, ih _ (tidy_insert _ e.1 ht), RouteTree.place, mem_routes_insert _ _ ht,
      List.map_cons, List.mem_cons]
    tauto

section Routes

variable [Text.Transliteration]

/-- The groups of a document's operations: the segments of their paths before the last one, cut by
what all of them have in common. -/
def groupsOf (d : Document) : List (List String) :=
  let paths := d.operations.map fun o => (routeOf o).1
  paths.map (·.drop (commonStart paths).length)

/-- Whether groups that begin alike are also written alike only if they are the same. -/
def Unambiguous (d : Document) : Prop :=
  ∀ r ∈ groupsOf d, ∀ q ∈ groupsOf d, r.head? = q.head? → controllerOf r = controllerOf q → r = q

instance (d : Document) : Decidable (Unambiguous d) := inferInstanceAs (Decidable (∀ _, _))

theorem mem_groupsOf {d : Document} {tree : RouteTree} (ht : Tidy tree)
    (hpopulated : Populated tree)
    (hroutes : ∀ r, r ∈ routes tree ↔ r ∈ d.operations.map fun o => (routeOf o).1)
    {r : List String} : r ∈ groupsOf d ↔ r ∈ routes (dropCommon tree) := by
  have hstart := commonStart_congr hroutes
  have hcut := routes_dropCommon tree ht hpopulated
  rw [groupsOf, ← hstart, List.mem_map]
  constructor
  · rintro ⟨path, hpath, rfl⟩
    rw [← hroutes, hcut, List.mem_map] at hpath
    obtain ⟨q, hq, rfl⟩ := hpath
    rwa [List.drop_left]
  · intro hr
    have hpath := List.mem_map_of_mem (f := (commonStart (routes tree) ++ ·)) hr
    rw [← hcut] at hpath
    exact ⟨_, (hroutes _).1 hpath, List.drop_left⟩

/-- The segments of a document's groups are texts of letters and digits. -/
theorem named_of_mem_groupsOf {d : Document} {r : List String} (hr : r ∈ groupsOf d) {s : String}
    (hs : s ∈ r) : s ≠ "" ∧ '.' ∉ s.toList := by
  obtain ⟨path, hpath, rfl⟩ := List.mem_map.1 hr
  obtain ⟨o, -, rfl⟩ := List.mem_map.1 hpath
  have hsegment := List.dropLast_subset _ (List.mem_of_mem_drop hs)
  obtain ⟨hne, hall⟩ := Route.named_of_mem_segments hsegment
  exact ⟨hne, fun hdot => absurd (hall '.' hdot) (by decide)⟩

/-- A client that was made, with whatever hook and from whatever state, has places of its own for
all of its actions and all controllers of a namespace exactly where groups that begin alike are
written alike only if they are the same. -/
theorem apart_iff_unambiguous [MediaType.Reading] (d : Document) (options : Options)
    {r r' : Resolver} {api : ApiDefinition} {warnings : List Warning}
    (h : outcome (project d options) r = (.ok (api, warnings), r')) :
    api.Apart ↔ Unambiguous d := by
  rw [project, placeAll_eq, bind_assoc] at h
  obtain ⟨made, s, hmade, h⟩ := outcome_bind_eq_ok.1 h
  simp only [pure_bind, outcome_pure, Prod.mk.injEq, Except.ok.injEq] at h
  obtain ⟨⟨rfl, -⟩, rfl⟩ := h
  have hlength := outcome_mapM_length hmade
  set paths := d.operations.map fun o => (routeOf o).1 with hpaths
  set tree := (placeEach (paths.zip made) (RouteTree.empty, [])).1
  have htidy : Tidy tree := tidy_placeEach _ (RouteTree.empty, []) tidy_empty
  have hpopulated : Populated tree := populated_placeEach _ (RouteTree.empty, []) trivial
  have hroutes : ∀ r, r ∈ routes tree ↔ r ∈ paths := by
    intro r
    have hfst : (paths.zip made).map Prod.fst = paths :=
      List.map_fst_zip (by rw [hpaths, List.length_map]; exact Nat.le_of_eq hlength.symm)
    rw [mem_routes_placeEach _ (RouteTree.empty, []) tidy_empty, hfst]
    simp [RouteTree.empty, routes, routesBelow]
  have hgroups {r : List String} := mem_groupsOf (r := r) htidy hpopulated hroutes
  have hnamed : ∀ g ∈ (dropCommon tree).groups, g.1 ≠ "" ∧ '.' ∉ g.1.toList := by
    intro g hg
    obtain ⟨hheld, hsub⟩ := (populatedAll_iff _).1
      ((populated_iff _).1 (populated_dropCommon tree hpopulated)) g hg
    obtain ⟨q, hq⟩ := List.exists_mem_of_ne_nil _ (routes_ne_nil hsub hheld)
    have hmem := hgroups.2 (cons_mem_routes.2 ⟨g, hg, rfl, hq⟩)
    exact named_of_mem_groupsOf hmem List.mem_cons_self
  have hdropped := tidy_dropCommon tree htidy
  rw [(tidy_arrange d.tagDescription hdropped hnamed).apart_iff,
    nodup_names_arrange d.tagDescription hdropped, Unambiguous]
  simp only [hgroups]

end Routes

theorem apart_iff_unambiguous_shop :
    (∃ r, outcome (project shop alike) {} =
        (.ok (shopClient, [.renamedAction "Shop" "Same" "Same2"]), r)) ∧
      shopClient.Apart ∧ Unambiguous shop := by
  have hrun : (outcome (project shop alike) {}).1 =
      .ok (shopClient, [.renamedAction "Shop" "Same" "Same2"]) := by decide +kernel
  have hunambiguous : Unambiguous shop := by decide +kernel
  exact ⟨⟨_, Prod.ext hrun rfl⟩,
    (apart_iff_unambiguous shop alike (Prod.ext hrun rfl)).2 hunambiguous, hunambiguous⟩

/-- Two operations in the groups `A` and `A` of it, the latter under a repeated segment. -/
def repeated : Document where
  version := .openApi3
  operations := [{ path := "/a/x", method := .get }, { path := "/a/a/x", method := .get }]

def repeatedAction (url : String) : Action :=
  { url, method := .get, name := "X_GetAsync", returnType := "any" }

def repeatedClient : ApiDefinition where
  namespaces := [{ name := "A", controllers := [
    { name := "A", actions := [repeatedAction "/a/x"] },
    { name := "A", actions := [repeatedAction "/a/a/x"] }] }]

/-- A namespace and the only group below it have the same name, and so do the functions in them. -/
theorem not_apart_repeated :
    (∃ r, outcome (project repeated {}) {} = (.ok (repeatedClient, []), r)) ∧
      ¬ (repeatedClient.allActions.map ApiDefinition.place).Nodup ∧
      ¬ ∀ n ∈ repeatedClient.namespaces, (n.controllers.map Controller.name).Nodup := by
  have hrun : (outcome (project repeated {}) {}).1 = .ok (repeatedClient, []) := by decide +kernel
  exact ⟨⟨_, Prod.ext hrun rfl⟩, by decide +kernel, by decide +kernel⟩

end Client

end TypedClient
