import TypedClient.Proofs.Client.Conservation

/-! Actions changed in a way that leaves their names. A route tree looks at nothing of an action but
its name, so changing all actions before they are placed is changing them in the client that the
tree is laid out as. -/

namespace TypedClient

/-! ### Changing actions where they stand -/

def Controller.mapActions (f : Action → Action) (c : Controller) : Controller :=
  { c with actions := c.actions.map f }

def ClientNamespace.mapActions (f : Action → Action) (n : ClientNamespace) : ClientNamespace :=
  { n with controllers := n.controllers.map (Controller.mapActions f) }

/-- A client with each of its actions changed in its place. -/
def ApiDefinition.mapActions (f : Action → Action) (api : ApiDefinition) : ApiDefinition :=
  { api with
    namespaces := api.namespaces.map (ClientNamespace.mapActions f)
    controllers := api.controllers.map (Controller.mapActions f)
    actions := api.actions.map f }

namespace RouteTree

mutual

/-- A tree with each of its actions changed in its place. -/
def mapActions (f : Action → Action) : RouteTree → RouteTree
  | .node actions groups => .node (actions.map fun p => (p.1, f p.2)) (mapAll f groups)

def mapAll (f : Action → Action) : List (String × RouteTree) → List (String × RouteTree)
  | [] => []
  | (s, t) :: rest => (s, mapActions f t) :: mapAll f rest

end

variable (f : Action → Action)

theorem mapAll_eq_map (groups : List (String × RouteTree)) :
    mapAll f groups = groups.map fun g => (g.1, mapActions f g.2) := by
  induction groups with
  | nil => rfl
  | cons g rest ih => rw [mapAll, ih, List.map_cons]

theorem actions_mapActions (t : RouteTree) :
    (mapActions f t).actions = t.actions.map fun p => (p.1, f p.2) := by
  cases t; rfl

theorem groups_mapActions (t : RouteTree) : (mapActions f t).groups = mapAll f t.groups := by
  cases t; rfl

theorem values_mapActions (t : RouteTree) :
    Assoc.values (mapActions f t).actions = (Assoc.values t.actions).map f := by
  rw [actions_mapActions, Assoc.values, Assoc.values, List.map_map, List.map_map]
  rfl

theorem mapActions_empty : mapActions f empty = empty := rfl

theorem get?_mapAll (groups : List (String × RouteTree)) (s : String) :
    (Assoc.get? (mapAll f groups) s).getD empty =
      mapActions f ((Assoc.get? groups s).getD empty) := by
  induction groups with
  | nil => rfl
  | cons g rest ih =>
    rw [mapAll, Assoc.get?, Assoc.get?]
    split
    · rfl
    · exact ih

theorem put_mapAll (groups : List (String × RouteTree)) (s : String) (t : RouteTree) :
    Assoc.put (mapAll f groups) s (mapActions f t) = mapAll f (Assoc.put groups s t) := by
  induction groups with
  | nil => rfl
  | cons g rest ih =>
    rw [mapAll, Assoc.put, Assoc.put]
    split
    · rfl
    · rw [ih]; rfl

theorem put_map (actions : Assoc String Action) (name : String) (a : Action) :
    Assoc.put (actions.map fun p => (p.1, f p.2)) name (f a) =
      (Assoc.put actions name a).map fun p => (p.1, f p.2) := by
  induction actions with
  | nil => rfl
  | cons p rest ih =>
    rw [List.map_cons, Assoc.put, Assoc.put]
    split
    · rfl
    · rw [ih]; rfl

/-! ### Placing -/

theorem under_mapActions (path : List String) (t : RouteTree) :
    under path (mapActions f t) = mapActions f (under path t) := by
  induction path generalizing t with
  | nil => rfl
  | cons s path ih => rw [under, under, groups_mapActions, get?_mapAll, ih]

theorem keys_under_mapActions (path : List String) (t : RouteTree) :
    Assoc.keys (under path (mapActions f t)).actions = Assoc.keys (under path t).actions := by
  rw [under_mapActions, actions_mapActions, Assoc.keys, List.map_map]
  rfl

/-- Whether changing actions leaves their names, and goes along with giving them names. -/
structure KeepsNames : Prop where
  name : ∀ a, (f a).name = a.name
  renamed : ∀ a name, f { a with name } = { f a with name }

variable {f}

theorem insert_mapActions (hf : KeepsNames f) (a : Action) (path : List String) (t : RouteTree) :
    insert (f a) path (mapActions f t) = mapActions f (insert a path t) := by
  induction path generalizing t with
  | nil =>
    obtain ⟨actions, groups⟩ := t
    rw [insert, mapActions, insert, hf.name, put_map, mapActions]
  | cons s path ih =>
    obtain ⟨actions, groups⟩ := t
    rw [insert, mapActions, insert, mapActions, Assoc.modify, Assoc.modify, get?_mapAll, ih,
      put_mapAll]

theorem place_mapActions (hf : KeepsNames f) (path : List String) (a : Action) (t : RouteTree) :
    (mapActions f t).place path (f a) = ((t.place path a).1.mapActions f, (t.place path a).2) := by
  simp only [place, keys_under_mapActions, hf.name, ← hf.renamed, insert_mapActions hf]

/-! ### Laying out -/

variable (f)

theorem isEmpty_actions_mapActions (t : RouteTree) :
    (mapActions f t).actions.isEmpty = t.actions.isEmpty := by
  rw [actions_mapActions, List.isEmpty_map]

theorem isEmpty_groups_mapActions (t : RouteTree) :
    (mapActions f t).groups.isEmpty = t.groups.isEmpty := by
  rw [groups_mapActions, mapAll_eq_map, List.isEmpty_map]

mutual

theorem dropCommon_mapActions : ∀ t : RouteTree,
    dropCommon (mapActions f t) = mapActions f (dropCommon t)
  | .node [] groups => by
    rw [mapActions, List.map_nil, dropCommon, dropOnly_mapAll groups, dropCommon]
    cases dropOnly groups <;> rfl
  | .node (_ :: _) _ => rfl

theorem dropOnly_mapAll : ∀ groups : List (String × RouteTree),
    dropOnly (mapAll f groups) = (dropOnly groups).map (mapActions f)
  | [] => rfl
  | [(_, only)] => by
    rw [mapAll, mapAll, dropOnly, dropOnly, isEmpty_actions_mapActions, isEmpty_groups_mapActions,
      dropCommon_mapActions only]
    split <;> rfl
  | _ :: _ :: _ => rfl

end

variable (describe : String → Option String)

theorem controller_map (name : String) (t : RouteTree) :
    controller describe name (mapActions f t).actions =
      (controller describe name t.actions).mapActions f := by
  rw [controller, values_mapActions]
  rfl

theorem ownController_map (name : String) (t : RouteTree) :
    ownController describe name (mapActions f t).actions =
      (ownController describe name t.actions).map (Controller.mapActions f) := by
  rw [ownController, isEmpty_actions_mapActions, controller_map, ownController]
  split <;> rfl

mutual

theorem flatten_mapActions : ∀ (name : String) (t : RouteTree),
    flatten describe name (mapActions f t) = (flatten describe name t).map (Controller.mapActions f)
  | name, .node actions groups => by
    have hown := ownController_map f describe name (.node actions groups)
    rw [actions_mapActions] at hown
    rw [mapActions, flatten, flatten, List.map_append, ← flattenAll_mapAll name groups]
    exact congrArg (· ++ _) hown

theorem flattenAll_mapAll : ∀ (start : String) (groups : List (String × RouteTree)),
    flattenAll describe start (mapAll f groups) =
      (flattenAll describe start groups).map (Controller.mapActions f)
  | _, [] => rfl
  | start, (name, t) :: rest => by
    rw [mapAll, flattenAll, flattenAll, List.map_append, flatten_mapActions (start ++ name) t,
      flattenAll_mapAll start rest]

end

theorem namespaceOf_mapActions (name : String) (t : RouteTree) :
    namespaceOf describe name (mapActions f t) = (namespaceOf describe name t).mapActions f := by
  rw [namespaceOf, ownController_map, groups_mapActions, flattenAll_mapAll, ← List.map_append]
  rfl

theorem arrange_mapActions (t : RouteTree) :
    arrange describe (mapActions f t) = (arrange describe t).mapActions f := by
  simp only [arrange, ApiDefinition.mapActions, dropCommon_mapActions, groups_mapActions,
    values_mapActions, mapAll_eq_map, List.partition_eq_filter_filter, List.filter_map,
    Function.comp_def, List.isEmpty_map, List.map_map, controller_map, namespaceOf_mapActions]

end RouteTree

/-! ### Placing all -/

namespace Client

open RouteTree

theorem placeEach_mapActions {f : Action → Action} (hf : KeepsNames f)
    (entries : List (List String × Action)) (tree : RouteTree) (warnings : List Warning) :
    placeEach (entries.map fun e => (e.1, f e.2)) (tree.mapActions f, warnings) =
      ((placeEach entries (tree, warnings)).1.mapActions f,
        (placeEach entries (tree, warnings)).2) := by
  induction entries generalizing tree warnings with
  | nil => rfl
  | cons e rest ih => rw [List.map_cons, placeEach, place_mapActions hf, ih, placeEach]

end Client

end TypedClient
