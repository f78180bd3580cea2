import TypedClient.Client.MediaTypeGrammar
import TypedClient.Proofs.Client.Apart
import TypedClient.Proofs.Naming.Identifiers
import TypedClient.Text.AsciiTable

/-! Names in a client as identifiers. Namespaces and controllers are called by segments of routes,
one or several in a row, and actions by the last segments. All of them are made of characters that
identifiers have; a name is none exactly where the segment that it begins with begins with a
digit. -/

namespace TypedClient

namespace ApiDefinition

/-- The names of namespaces and controllers. -/
def groupNames (api : ApiDefinition) : List String :=
  api.namespaces.map ClientNamespace.name ++ api.controllers.map Controller.name ++
    api.namespaces.flatMap fun n => n.controllers.map Controller.name

/-- The names of everything in a client: namespaces, controllers and actions. -/
def names (api : ApiDefinition) : List String :=
  api.groupNames ++ api.allActions.map fun p => p.2.name

end ApiDefinition

namespace RouteTree

/-! ### Namespaces and controllers -/

theorem exists_route_of_mem_groups {t : RouteTree} (ht : Populated t) {g : String × RouteTree}
    (hg : g ∈ t.groups) : ∃ below, g.1 :: below ∈ routes t := by
  obtain ⟨hheld, hsub⟩ := (populatedAll_iff _).1 ((populated_iff t).1 ht) g hg
  obtain ⟨below, hbelow⟩ := List.exists_mem_of_ne_nil _ (routes_ne_nil hsub hheld)
  exact ⟨below, cons_mem_routes.2 ⟨g, hg, rfl, hbelow⟩⟩

/-- Groups are called by the first segment of a route, or by what follows it. -/
theorem mem_groupNames_arrange (describe : String → Option String) {t : RouteTree}
    (ht : Populated (dropCommon t)) {name : String} :
    name ∈ (arrange describe t).groupNames ↔ ∃ s below, s :: below ∈ routes (dropCommon t) ∧
      (name = s ∨ name = controllerName s below) := by
  simp only [ApiDefinition.groupNames, arrange, List.partition_eq_filter_filter, List.map_map,
    List.flatMap_map, names_namespaceOf, List.mem_append, List.mem_flatMap, List.mem_map,
    List.mem_filter]
  constructor
  · rintro ((⟨g, ⟨hg, -⟩, rfl⟩ | ⟨g, ⟨hg, -⟩, rfl⟩) | ⟨g, ⟨hg, -⟩, below, hbelow, rfl⟩)
    · obtain ⟨below, hroute⟩ := exists_route_of_mem_groups ht hg
      exact ⟨g.1, below, hroute, .inl rfl⟩
    · obtain ⟨below, hroute⟩ := exists_route_of_mem_groups ht hg
      exact ⟨g.1, below, hroute, .inl rfl⟩
    · exact ⟨g.1, below, cons_mem_routes.2 ⟨g, hg, rfl, hbelow⟩, .inr rfl⟩
  · rintro ⟨s, below, hroute, hname⟩
    obtain ⟨g, hg, rfl, hbelow⟩ := cons_mem_routes.1 hroute
    cases hflat : g.2.groups.isEmpty with
    | true =>
      have hnil := eq_nil_of_groups_isEmpty hflat hbelow
      subst hnil
      exact .inl (.inr ⟨g, ⟨hg, hflat⟩, (hname.elim id id).symm⟩)
    | false =>
      have hdeep : (!g.2.groups.isEmpty) = true := by rw [hflat]; rfl
      rcases hname with rfl | rfl
      · exact .inl (.inl ⟨g, ⟨hg, hdeep⟩, rfl⟩)
      · exact .inr ⟨g, ⟨hg, hdeep⟩, below, hbelow, rfl⟩

end RouteTree

namespace Client

open RouteTree

/-! ### Actions -/

/-- Actions are called in the tree as they were called before, or as it was free. -/
theorem names_placeEach (entries : List (List String × Action))
    (placed : RouteTree × List Warning) :
    ∃ names, List.Forall₂ (fun stem name => ∃ taken, name = freshName taken stem)
        ((entries.map Prod.snd).map Action.name) names ∧
      ((placeEach entries placed).1.held.map Action.name).Perm
        (names ++ placed.1.held.map Action.name) := by
  induction entries generalizing placed with
  | nil => exact ⟨[], .nil, List.Perm.refl _⟩
  | cons e rest ih =>
    obtain ⟨tree, warnings⟩ := placed
    obtain ⟨names, hnames, hheld⟩ :=
      ih ((tree.place e.1 e.2).1, warnings ++ (tree.place e.1 e.2).2)
    set taken := Assoc.keys (under e.1 tree).actions
    have hfirst := (held_insert { e.2 with name := freshName taken e.2.name } e.1 tree
      (freshName_not_mem taken e.2.name)).map Action.name
    exact ⟨freshName taken e.2.name :: names, .cons ⟨taken, rfl⟩ hnames,
      (hheld.trans (hfirst.append_left names)).trans List.perm_middle⟩

/-! ### Names -/

theorem mem_toList_join {parts : List String} {c : Char} :
    c ∈ (String.join parts).toList ↔ ∃ k ∈ parts, c ∈ k.toList := by
  induction parts with
  | nil => simp [String.join]
  | cons k rest ih =>
    rw [String.join_cons, String.toList_append, List.mem_append, ih, List.exists_mem_cons_iff]

/-- A controller's name is worded, and begins with what its segments begin with. -/
theorem worded_controllerName {s : String} {below : List String} (hs : Naming.Plain s)
    (hbelow : ∀ k ∈ below, Naming.Plain k) :
    Naming.Worded (controllerName s below) ∧
      Naming.digitLed (controllerName s below) = Naming.digitLed (below.headD s) := by
  cases below with
  | nil => exact ⟨hs.worded, rfl⟩
  | cons k rest =>
    rw [List.forall_mem_cons] at hbelow
    have hparts : ∀ c ∈ (String.join rest).toList, Naming.isPart c := by
      intro c hc
      obtain ⟨k, hk, hc⟩ := mem_toList_join.1 hc
      exact (hbelow.2 k hk).worded.parts c hc
    rw [show controllerName s (k :: rest) = k ++ String.join rest from String.join_cons]
    exact ⟨hbelow.1.worded.append hparts, Naming.digitLed_append hbelow.1.ne_empty _⟩

section Names

variable [Text.Transliteration]

/-- What the action of an operation is called before it is placed. -/
def stemOf (o : Operation) : String := Route.actionName (routeOf o).2 o.method.lowerName

/-- The action of an operation that no hook changes has the name that its route and method give. -/
theorem name_of_submitted [MediaType.Reading] {d : Document} {options : Options}
    (hhook : options.hook = none) {o : Operation} {r r' : Resolver} {a : Action}
    (h : outcome (submitted d options o) r = (.ok a, r')) :
    a.name = stemOf o := by
  unfold submitted actionOf at h
  obtain ⟨action, s, haction, h⟩ := outcome_bind_eq_ok.1 h
  obtain ⟨parameters, s₁, -, haction⟩ := outcome_bind_eq_ok.1 haction
  obtain ⟨header, s₂, -, haction⟩ := outcome_bind_eq_ok.1 haction
  obtain ⟨request, s₃, -, haction⟩ := outcome_bind_eq_ok.1 haction
  obtain ⟨returnType, s₄, -, haction⟩ := outcome_bind_eq_ok.1 haction
  rw [outcome_pure] at h haction
  cases haction
  cases h
  rw [Options.hooked, hhook, stemOf]

/-- What a client that no hook changes is laid out from: a tree with a route to the group of every
operation, and with an action for each, called as the operation says or as it was free. -/
structure LaidOut (d : Document) (api : ApiDefinition) (tree : RouteTree) : Prop where
  layout : api = tree.arrange d.tagDescription
  tidy : Tidy tree
  populated : Populated tree
  routes : ∀ r, r ∈ routes tree ↔ r ∈ d.operations.map fun o => (routeOf o).1
  names : ∃ names, List.Forall₂ (fun o name => ∃ taken, name = freshName taken (stemOf o))
    d.operations names ∧ (tree.held.map Action.name).Perm names

theorem exists_laidOut [MediaType.Reading] {d : Document} {options : Options}
    (hhook : options.hook = none) {r r' : Resolver} {api : ApiDefinition} {warnings : List Warning}
    (h : outcome (project d options) r = (.ok (api, warnings), r')) :
    ∃ tree, LaidOut d api tree := by
  rw [project, placeAll_eq, bind_assoc] at h
  obtain ⟨made, s, hmade, h⟩ := outcome_bind_eq_ok.1 h
  simp only [pure_bind, outcome_pure, Prod.mk.injEq, Except.ok.injEq] at h
  obtain ⟨⟨rfl, -⟩, rfl⟩ := h
  obtain ⟨hfst, hsnd⟩ := map_zip_of_outcome_mapM hmade fun o => (routeOf o).1
  refine ⟨_, rfl, tidy_placeEach _ (RouteTree.empty, []) tidy_empty,
    populated_placeEach _ (RouteTree.empty, []) trivial, fun r => ?_, ?_⟩
  · rw [mem_routes_placeEach _ (RouteTree.empty, []) tidy_empty, hfst]
    exact or_iff_left List.not_mem_nil
  · obtain ⟨names, hnames, hheld⟩ := names_placeEach
      ((d.operations.map fun o => (routeOf o).1).zip made) (RouteTree.empty, [])
    have hstems : List.Forall₂ (fun o a => stemOf o = a.name) d.operations made :=
      (forall₂_of_outcome_mapM hmade).imp fun o a hgave => by
        obtain ⟨s, t, hrun⟩ := hgave
        exact (name_of_submitted hhook hrun).symm
    have hmap : d.operations.map stemOf = made.map Action.name := by
      rwa [← List.forall₂_eq_eq_eq, List.forall₂_map_left_iff, List.forall₂_map_right_iff]
    rw [hsnd, ← hmap, List.forall₂_map_left_iff] at hnames
    exact ⟨names, hnames, hheld.trans (List.Perm.of_eq (List.append_nil _))⟩

/-! ### The client -/

/-- The segments that names in a client begin with: the first two of a group, and the last of a
path. -/
def leading (d : Document) : List String :=
  (groupsOf d).flatMap (·.take 2) ++ d.operations.filterMap fun o => (routeOf o).2

theorem plain_of_mem_segments {path s : String} (hs : s ∈ Route.segments path) :
    Naming.Plain s :=
  ⟨(Route.named_of_mem_segments hs).1, (Route.named_of_mem_segments hs).2⟩

theorem plain_of_mem_groupsOf {d : Document} {r : List String} (hr : r ∈ groupsOf d) {s : String}
    (hs : s ∈ r) : Naming.Plain s := by
  obtain ⟨path, hpath, rfl⟩ := List.mem_map.1 hr
  obtain ⟨o, -, rfl⟩ := List.mem_map.1 hpath
  exact plain_of_mem_segments (List.dropLast_subset _ (List.mem_of_mem_drop hs))

theorem plain_last {o : Operation} : ∀ s ∈ (routeOf o).2, Naming.Plain s :=
  fun _ hs => plain_of_mem_segments (List.mem_of_getLast? hs)

/-- The names of groups begin with the first two segments of their routes. -/
theorem worded_groupNames {d : Document} {api : ApiDefinition} {tree : RouteTree}
    (h : LaidOut d api tree) :
    (∀ name ∈ api.groupNames, Naming.Worded name) ∧
      ((∀ name ∈ api.groupNames, Naming.digitLed name = false) ↔
        ∀ r ∈ groupsOf d, ∀ s ∈ r.take 2, Naming.digitLed s = false) := by
  have hmem {name : String} : name ∈ api.groupNames ↔ ∃ s below, s :: below ∈ groupsOf d ∧
      (name = s ∨ name = controllerName s below) := by
    rw [h.layout, mem_groupNames_arrange _ (populated_dropCommon tree h.populated)]
    simp only [mem_groupsOf h.tidy h.populated h.routes]
  have hplain : ∀ {s below}, s :: below ∈ groupsOf d →
      Naming.Plain s ∧ ∀ k ∈ below, Naming.Plain k := fun hr =>
    ⟨plain_of_mem_groupsOf hr List.mem_cons_self,
      fun k hk => plain_of_mem_groupsOf hr (List.mem_cons_of_mem _ hk)⟩
  refine ⟨fun name hname => ?_, fun hall r hr s hs => ?_, fun hall name hname => ?_⟩
  · obtain ⟨s, below, hr, rfl | rfl⟩ := hmem.1 hname
    · exact (hplain hr).1.worded
    · exact (worded_controllerName (hplain hr).1 (hplain hr).2).1
  · match r, hr with
    | [first], hr =>
      rw [List.mem_singleton.1 hs]
      exact hall first (hmem.2 ⟨first, [], hr, .inl rfl⟩)
    | first :: second :: rest, hr =>
      rcases List.mem_pair.1 hs with rfl | rfl
      · exact hall s (hmem.2 ⟨s, _, hr, .inl rfl⟩)
      · have hled := (worded_controllerName (hplain hr).1 (hplain hr).2).2
        exact hled.symm.trans (hall _ (hmem.2 ⟨first, _, hr, .inr rfl⟩))
  · obtain ⟨s, below, hr, rfl | rfl⟩ := hmem.1 hname
    · exact hall _ hr name (by simp)
    · rw [(worded_controllerName (hplain hr).1 (hplain hr).2).2]
      cases below with
      | nil => exact hall _ hr s (by simp)
      | cons k rest => exact hall _ hr k (by simp)

variable [Text.LawfulTransliteration]

/-- The names of actions begin with the last segments of their paths. -/
theorem worded_actionNames {d : Document} {api : ApiDefinition} {tree : RouteTree}
    (h : LaidOut d api tree) :
    (∀ name ∈ api.allActions.map fun p => p.2.name, Naming.Worded name) ∧
      ((∀ name ∈ api.allActions.map fun p => p.2.name, Naming.digitLed name = false) ↔
        ∀ o ∈ d.operations, ∀ s ∈ (routeOf o).2, Naming.digitLed s = false) := by
  obtain ⟨names, hnames, hheld⟩ := h.names
  have hlaid : (api.allActions.map fun p => p.2.name).Perm names := by
    have hactions := (allActions_arrange d.tagDescription tree).map Action.name
    rw [List.map_map, ← h.layout] at hactions
    exact hactions.trans hheld
  have hname : List.Forall₂ (fun o name => Naming.Worded name ∧
      Naming.digitLed name = (routeOf o).2.any Naming.digitLed) d.operations names :=
    hnames.imp fun o name ⟨taken, heq⟩ => heq ▸ worded_freshName plain_last o.method taken
  have hled {o : Operation} : (routeOf o).2.any Naming.digitLed = false ↔
      ∀ s ∈ (routeOf o).2, Naming.digitLed s = false := by
    cases (routeOf o).2 <;> simp
  simp only [hlaid.mem_iff]
  clear hlaid hnames hheld
  generalize d.operations = operations at hname ⊢
  induction hname with
  | nil => simp
  | cons hfirst _ ih =>
    simp only [List.forall_mem_cons]
    exact ⟨⟨hfirst.1, ih.1⟩, and_congr (by rw [hfirst.2, hled]) ih.2⟩

/-- **The names in a client that no hook changes are made of characters of identifiers; all of
them are identifiers exactly where no segment that a name begins with begins with a digit.** -/
theorem identifiers_iff [MediaType.Reading] (d : Document) {options : Options}
    (hhook : options.hook = none) {r r' : Resolver} {api : ApiDefinition} {warnings : List Warning}
    (h : outcome (project d options) r = (.ok (api, warnings), r')) :
    (∀ name ∈ api.names, name ≠ "" ∧ ∀ c ∈ name.toList, Naming.isPart c) ∧
      ((∀ name ∈ api.names, Naming.isIdentifier name) ↔
        ∀ s ∈ leading d, Naming.digitLed s = false) := by
  obtain ⟨tree, hlaid⟩ := exists_laidOut hhook h
  obtain ⟨hgroups, hgroupsLed⟩ := worded_groupNames hlaid
  obtain ⟨hactions, hactionsLed⟩ := worded_actionNames hlaid
  have hworded : ∀ name ∈ api.names, Naming.Worded name := fun name hname =>
    (List.mem_append.1 hname).elim (hgroups name) (hactions name)
  refine ⟨fun name hname => ⟨(hworded name hname).ne_empty, (hworded name hname).parts⟩, ?_⟩
  have hidentifier : (∀ name ∈ api.names, Naming.isIdentifier name) ↔
      ∀ name ∈ api.names, Naming.digitLed name = false :=
    forall₂_congr fun name hname => by
      rw [(hworded name hname).isIdentifier_eq, Bool.not_eq_true']
  have hleading : (∀ s ∈ leading d, Naming.digitLed s = false) ↔
      (∀ r ∈ groupsOf d, ∀ s ∈ r.take 2, Naming.digitLed s = false) ∧
        ∀ o ∈ d.operations, ∀ s ∈ (routeOf o).2, Naming.digitLed s = false := by
    simp only [leading, List.forall_mem_append, List.mem_flatMap, List.mem_filterMap,
      forall_exists_index, and_imp]
    exact and_congr ⟨fun h r hr s hs => h s r hr hs, fun h s r hr hs => h r hr s hs⟩
      ⟨fun h o ho s hs => h s o ho hs, fun h s o ho hs => h o ho s hs⟩
  rw [hidentifier, hleading, ApiDefinition.names, List.forall_mem_append, hgroupsLed, hactionsLed]

end Names

theorem identifiers_iff_shop :
    ∃ api warnings r, outcome (project shop {}) {} = (.ok (api, warnings), r) ∧
      api.names = ["Shop", "Shop", "PetsByPetId", "Pets_GetAsync", "Pets_PostAsync",
        "Toys_GetAsync"] ∧
      (∀ s ∈ leading shop, Naming.digitLed s = false) ∧
      ∀ name ∈ api.names, Naming.isIdentifier name := by
  have hrun : ((outcome (project shop {}) {}).1 >>= fun made => pure made.1.names) =
      .ok ["Shop", "Shop", "PetsByPetId", "Pets_GetAsync", "Pets_PostAsync", "Toys_GetAsync"] := by
    decide +kernel
  have hleading : ∀ s ∈ leading shop, Naming.digitLed s = false := by decide +kernel
  obtain ⟨⟨api, warnings⟩, hmade, hnames⟩ := except_bind_eq_ok.1 hrun
  have hproject : outcome (project shop {}) {} =
      (.ok (api, warnings), (outcome (project shop {}) {}).2) := Prod.ext hmade rfl
  exact ⟨api, warnings, _, hproject, Except.ok.inj hnames, hleading,
    (identifiers_iff shop rfl hproject).2.2 hleading⟩

/-- An operation in a group that begins with a digit. -/
def twoFactor : Document where
  version := .openApi3
  operations := [{ path := "/2fa/verify", method := .post }]

def twoFactorClient : ApiDefinition where
  controllers := [{ name := "2fa", actions := [
    { url := "/2fa/verify", method := .post, name := "Verify_PostAsync", returnType := "any" }] }]

/-- A controller that is called by a segment with a digit first is no identifier. -/
theorem not_identifier_twoFactor :
    (∃ r, outcome (project twoFactor {}) {} = (.ok (twoFactorClient, []), r)) ∧
      ∃ c ∈ twoFactorClient.controllers, ¬ Naming.isIdentifier c.name := by
  have hrun : (outcome (project twoFactor {}) {}).1 = .ok (twoFactorClient, []) := by
    decide +kernel
  exact ⟨⟨_, Prod.ext hrun rfl⟩, by decide +kernel⟩

end Client

end TypedClient
