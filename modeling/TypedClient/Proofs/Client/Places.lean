import Mathlib.Data.List.Nodup
import Mathlib.Data.Prod.Basic
import TypedClient.Client.Action

/-! The places of a client's functions: a group and a name in it. A group in a namespace is written
with a point, so that it is no group outside of namespaces; where names tell everything apart but
the controllers within namespaces, places differ when these controllers do. -/

namespace TypedClient.ApiDefinition

/-- A group and the name of an action in it. -/
def place (p : String × Action) : String × String := (p.1, p.2.name)

/-- No two actions share a place, and no two controllers of a namespace have the same name. -/
def Apart (api : ApiDefinition) : Prop :=
  (api.allActions.map place).Nodup ∧
    ∀ n ∈ api.namespaces, (n.controllers.map Controller.name).Nodup

instance (api : ApiDefinition) : Decidable api.Apart := inferInstanceAs (Decidable (_ ∧ _))

/-- Names tell everything apart but the controllers within namespaces. -/
structure Tidy (api : ApiDefinition) : Prop where
  actions : (api.actions.map Action.name).Nodup
  controllers : (api.controllers.map Controller.name).Nodup
  namespaces : (api.namespaces.map ClientNamespace.name).Nodup
  inController : ∀ c ∈ api.controllers, (c.actions.map Action.name).Nodup
  inNamespace : ∀ n ∈ api.namespaces, ∀ c ∈ n.controllers, (c.actions.map Action.name).Nodup
  controllerNamed : ∀ c ∈ api.controllers, c.name ≠ "" ∧ '.' ∉ c.name.toList
  namespaceNamed : ∀ n ∈ api.namespaces, '.' ∉ n.name.toList

/-! ### Places -/

theorem map_place_grouped (group : String) (c : Controller) :
    (grouped group c).map place = (c.actions.map Action.name).map (Prod.mk group) := by
  simp [grouped, place, Function.comp_def]

/-- What stands before the first point is read off a text. -/
theorem takeWhile_dotted {a : String} (ha : '.' ∉ a.toList) (c : String) :
    (a ++ "." ++ c).toList.takeWhile (· ≠ '.') = a.toList := by
  have hall : ∀ x ∈ a.toList, decide (x ≠ '.') = true := fun x hx =>
    decide_eq_true fun he => ha (he ▸ hx)
  rw [String.toList_append, String.toList_append, List.append_assoc,
    List.takeWhile_append_of_pos hall]
  simp

theorem dotted_inj {a b c e : String} (ha : '.' ∉ a.toList) (hb : '.' ∉ b.toList)
    (h : a ++ "." ++ c = b ++ "." ++ e) : a = b ∧ c = e := by
  have hab : a = b := String.toList_injective <| by
    rw [← takeWhile_dotted ha c, h, takeWhile_dotted hb e]
  subst hab
  refine ⟨rfl, String.toList_injective ?_⟩
  simpa using congrArg String.toList h

theorem group_of_mem_places (label : String → String) {controllers : List Controller}
    {p : String × String}
    (hp : p ∈ (controllers.flatMap fun c => grouped (label c.name) c).map place) :
    ∃ c ∈ controllers, label c.name = p.1 := by
  simp only [List.map_flatMap, map_place_grouped, List.mem_flatMap, List.mem_map] at hp
  obtain ⟨c, hc, _, -, rfl⟩ := hp
  exact ⟨c, hc, rfl⟩

/-- Controllers with names of their own have places of their own. -/
theorem nodup_places (label : String → String) (hlabel : Function.Injective label)
    {controllers : List Controller} (hnames : (controllers.map Controller.name).Nodup)
    (hactions : ∀ c ∈ controllers, (c.actions.map Action.name).Nodup) :
    ((controllers.flatMap fun c => grouped (label c.name) c).map place).Nodup := by
  simp only [List.map_flatMap, map_place_grouped]
  refine List.nodup_flatMap.2 ⟨fun c hc => ?_, ?_⟩
  · exact (hactions c hc).map (Prod.mk_right_injective _)
  · refine (List.pairwise_map.1 hnames).imp fun hne p hp hp' => ?_
    obtain ⟨_, -, rfl⟩ := List.mem_map.1 hp
    obtain ⟨_, -, hp'⟩ := List.mem_map.1 hp'
    exact hne (hlabel (Prod.mk.inj hp').1).symm

variable {api : ApiDefinition}

/-- The places in namespaces. -/
def namespacePlaces (api : ApiDefinition) : List (String × String) :=
  (api.namespaces.flatMap fun n =>
    n.controllers.flatMap fun c => grouped (n.name ++ "." ++ c.name) c).map place

theorem group_of_mem_namespacePlaces {p : String × String} (hp : p ∈ api.namespacePlaces) :
    ∃ n ∈ api.namespaces, ∃ c ∈ n.controllers, n.name ++ "." ++ c.name = p.1 := by
  rw [namespacePlaces, List.map_flatMap, List.mem_flatMap] at hp
  obtain ⟨n, hn, hp⟩ := hp
  exact ⟨n, hn, group_of_mem_places (fun name => n.name ++ "." ++ name) hp⟩

theorem Tidy.nodup_namespacePlaces (h : api.Tidy)
    (hnames : ∀ n ∈ api.namespaces, (n.controllers.map Controller.name).Nodup) :
    api.namespacePlaces.Nodup := by
  rw [namespacePlaces, List.map_flatMap]
  refine List.nodup_flatMap.2 ⟨fun n hn => ?_, ?_⟩
  · refine nodup_places (fun name => n.name ++ "." ++ name) (fun a b hab => ?_)
      (hnames n hn) (h.inNamespace n hn)
    exact (dotted_inj (h.namespaceNamed n hn) (h.namespaceNamed n hn) hab).2
  · refine (List.pairwise_map.1 h.namespaces).imp_of_mem fun {n n'} hn hn' hne p hp hp' => hne ?_
    obtain ⟨c, -, hc⟩ := group_of_mem_places (fun name => n.name ++ "." ++ name) hp
    obtain ⟨c', -, hc'⟩ := group_of_mem_places (fun name => n'.name ++ "." ++ name) hp'
    exact (dotted_inj (h.namespaceNamed n hn) (h.namespaceNamed n' hn') (hc.trans hc'.symm)).1

/-- Places differ when the controllers of each namespace do: the groups outside of namespaces have
no point in their names, and actions outside of groups have no name before them. -/
theorem Tidy.apart_iff (h : api.Tidy) :
    api.Apart ↔ ∀ n ∈ api.namespaces, (n.controllers.map Controller.name).Nodup := by
  refine and_iff_right_of_imp fun hnames => ?_
  have hplaces : api.allActions.map place =
      (api.actions.map Action.name).map (Prod.mk "") ++
        (api.controllers.flatMap fun c => grouped (id c.name) c).map place ++
          api.namespacePlaces := by
    simp [allActions, namespacePlaces, place, Function.comp_def]
  rw [hplaces]
  refine List.Nodup.append (List.Nodup.append (h.actions.map (Prod.mk_right_injective _))
    (nodup_places id Function.injective_id h.controllers h.inController) ?_)
    (h.nodup_namespacePlaces hnames) ?_
  · intro p hp hp'
    obtain ⟨_, -, rfl⟩ := List.mem_map.1 hp
    obtain ⟨c, hc, hname⟩ := group_of_mem_places id hp'
    exact (h.controllerNamed c hc).1 hname
  · intro p hp hp'
    obtain ⟨n, -, c, -, hname⟩ := group_of_mem_namespacePlaces hp'
    have hdot : '.' ∈ p.1.toList := by rw [← hname]; simp
    rcases List.mem_append.1 hp with hp | hp
    · obtain ⟨_, -, rfl⟩ := List.mem_map.1 hp
      exact absurd hdot List.not_mem_nil
    · obtain ⟨c, hc, hc'⟩ := group_of_mem_places id hp
      rw [← hc'] at hdot
      exact (h.controllerNamed c hc).2 hdot

end TypedClient.ApiDefinition
