import TypedClient.Client.MediaTypeGrammar
import TypedClient.Client.Project
import TypedClient.Proofs.Client.Layout
import TypedClient.Proofs.Outcome
import TypedClient.Text.AsciiTable

/-! No operation of a document is lost, doubled or made up on its way into a client. Operations are
made into actions first; what remains of a projection is placing these in a tree, one by one, and
laying the tree out. Main statement: the actions of a client are those that were made, in some
order, up to the names that were changed. -/

namespace TypedClient

/-- An action without its name. -/
def Action.unnamed (a : Action) : Action := { a with name := "" }

namespace Client

open RouteTree

/-! ### Making and placing -/

/-- The action of an operation, changed by the hook: as it is handed in for a place. -/
def submitted [MediaType.Reading] [Text.Transliteration] (d : Document) (options : Options)
    (o : Operation) : Resolving Action := do
  let action ← actionOf d options o
  pure (options.hooked action)

/-- Places actions, each under its path, in a tree. -/
def placeEach : List (List String × Action) → RouteTree × List Warning → RouteTree × List Warning
  | [], placed => placed
  | (path, a) :: rest, (tree, warnings) =>
    placeEach rest ((tree.place path a).1, warnings ++ (tree.place path a).2)

/-- Placing does not influence what is made. -/
theorem placeAll_eq [MediaType.Reading] [Text.Transliteration] (d : Document) (options : Options)
    (ops : List Operation)
    (placed : RouteTree × List Warning) :
    placeAll d options ops placed = (do
      let made ← ops.mapM (submitted d options)
      pure (placeEach ((ops.map fun o => (routeOf o).1).zip made) placed)) := by
  induction ops generalizing placed with
  | nil => simp [placeAll, placeEach]
  | cons o rest ih =>
    simp only [placeAll, List.mapM_cons, submitted, bind_assoc, pure_bind, ih, List.map_cons,
      List.zip_cons_cons, placeEach]

theorem outcome_mapM_length {α β σ : Type} {f : α → ExceptT Failure (StateM σ) β} {xs : List α}
    {ys : List β} {s t : σ} (h : outcome (xs.mapM f) s = (.ok ys, t)) : ys.length = xs.length :=
  (forall₂_of_outcome_mapM h).length_eq.symm

/-- What is made of some values can be put beside whatever they are mapped to. -/
theorem map_zip_of_outcome_mapM {α β γ σ : Type} {f : α → ExceptT Failure (StateM σ) β}
    {xs : List α} {ys : List β} {s t : σ} (h : outcome (xs.mapM f) s = (.ok ys, t)) (g : α → γ) :
    ((xs.map g).zip ys).map Prod.fst = xs.map g ∧ ((xs.map g).zip ys).map Prod.snd = ys := by
  have hlength : (xs.map g).length = ys.length := by
    rw [List.length_map, outcome_mapM_length h]
  exact ⟨List.map_fst_zip (Nat.le_of_eq hlength), List.map_snd_zip (Nat.le_of_eq hlength.symm)⟩

/-! ### What a tree has gained -/

theorem held_place (tree : RouteTree) (path : List String) (a : Action) :
    ((tree.place path a).1.held.map Action.unnamed).Perm
      (a.unnamed :: tree.held.map Action.unnamed) := by
  have hfree := freshName_not_mem (Assoc.keys (under path tree).actions) a.name
  exact (held_insert { a with name := freshName _ a.name } path tree hfree).map Action.unnamed

theorem populated_place {tree : RouteTree} (path : List String) (a : Action)
    (ht : Populated tree) : Populated (tree.place path a).1 :=
  populated_insert _ path tree (freshName_not_mem _ a.name) ht

theorem held_placeEach (entries : List (List String × Action))
    (placed : RouteTree × List Warning) :
    ((placeEach entries placed).1.held.map Action.unnamed).Perm
      (entries.map (fun e => e.2.unnamed) ++ placed.1.held.map Action.unnamed) := by
  induction entries generalizing placed with
  | nil => exact List.Perm.refl _
  | cons e rest ih =>
    refine (ih _).trans ?_
    exact ((held_place placed.1 e.1 e.2).append_left _).trans List.perm_middle

theorem populated_placeEach (entries : List (List String × Action))
    (placed : RouteTree × List Warning) (ht : Populated placed.1) :
    Populated (placeEach entries placed).1 := by
  induction entries generalizing placed with
  | nil => exact ht
  | cons e rest ih => exact ih _ (populated_place e.1 e.2 ht)

/-! ### The client -/

/-- A projection that succeeds has made one action for each operation, from the state that it was
given and up to the state that it leaves. The client has exactly these actions, up to their names,
and no controller or namespace without any. -/
theorem allActions_project [MediaType.Reading] [Text.Transliteration] (d : Document)
    (options : Options) {r r' : Resolver}
    {api : ApiDefinition} {warnings : List Warning}
    (h : outcome (project d options) r = (.ok (api, warnings), r')) :
    (∃ made, outcome (d.operations.mapM (submitted d options)) r = (.ok made, r') ∧
      made.length = d.operations.length ∧
      (api.allActions.map fun p => p.2.unnamed).Perm (made.map Action.unnamed)) ∧
    (∀ c ∈ api.controllers, c.actions ≠ []) ∧
    ∀ n ∈ api.namespaces, n.controllers ≠ [] ∧ ∀ c ∈ n.controllers, c.actions ≠ [] := by
  rw [project, placeAll_eq, bind_assoc] at h
  obtain ⟨made, s, hmade, h⟩ := outcome_bind_eq_ok.1 h
  simp only [pure_bind, outcome_pure, Prod.mk.injEq, Except.ok.injEq] at h
  obtain ⟨⟨rfl, -⟩, rfl⟩ := h
  have hlength := outcome_mapM_length hmade
  set entries := (d.operations.map fun o => (routeOf o).1).zip made with hentries
  have hpopulated := populated_placeEach entries (RouteTree.empty, []) trivial
  refine ⟨⟨made, hmade, hlength, ?_⟩, fun c hc => actions_ne_nil_of_mem_arrange _ hpopulated hc,
    fun n hn => controllers_ne_nil_of_mem_arrange _ hpopulated hn⟩
  have hlaid := (allActions_arrange d.tagDescription
    (placeEach entries (RouteTree.empty, [])).1).map Action.unnamed
  rw [List.map_map] at hlaid
  refine (hlaid.trans (held_placeEach entries _)).trans (List.Perm.of_eq ?_)
  have hsnd : entries.map Prod.snd = made := by
    rw [hentries, List.map_snd_zip]
    rw [List.length_map]; exact Nat.le_of_eq hlength
  rw [← hsnd, List.map_map]
  exact List.append_nil _

/-- Three operations, two of them on one path. -/
def shop : Document where
  version := .openApi3
  operations := [
    { path := "/shop/pets", method := .get },
    { path := "/shop/pets", method := .post },
    { path := "/shop/pets/{petId}/toys", method := .get }]

/-- A hook that calls every action the same. -/
def alike : Options := { hook := some fun a => { a with name := "Same" } }

def shopAction (url : String) (method : HttpMethod) (name : String) : Action :=
  { url, method, name, returnType := "any" }

def shopClient : ApiDefinition where
  namespaces := [{ name := "Shop", controllers := [
    { name := "Shop", actions := [
      shopAction "/shop/pets" .get "Same", shopAction "/shop/pets" .post "Same2"] },
    { name := "PetsByPetId", actions := [
      shopAction "/shop/pets/{petId}/toys" .get "Same"] }] }]

theorem allActions_project_shop :
    ∃ r, outcome (project shop alike) {} =
        (.ok (shopClient, [.renamedAction "Shop" "Same" "Same2"]), r) ∧
      ∃ made, outcome (shop.operations.mapM (submitted shop alike)) {} = (.ok made, r) ∧
        made.length = 3 ∧
        (shopClient.allActions.map fun p => p.2.unnamed).Perm (made.map Action.unnamed) := by
  have hrun : (outcome (project shop alike) {}).1 =
      .ok (shopClient, [.renamedAction "Shop" "Same" "Same2"]) := by decide +kernel
  have h := allActions_project shop alike (Prod.ext hrun rfl)
  exact ⟨_, Prod.ext hrun rfl, h.1⟩

end Client

end TypedClient
