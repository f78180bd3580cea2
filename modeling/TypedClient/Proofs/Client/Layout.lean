import TypedClient.Proofs.Client.HeldActions

/-! Laying out a route tree: the actions of the layout are those that the tree holds, and the
controllers and namespaces of a tree without idle groups have something in them. -/

namespace TypedClient.RouteTree

variable (describe : String → Option String)

/-! ### Common groups -/

mutual

theorem held_dropCommon : ∀ t : RouteTree, held (dropCommon t) = held t
  | .node [] groups => by
    rw [dropCommon]
    cases h : dropOnly groups with
    | none => rfl
    | some t => exact held_dropOnly groups h
  | .node (_ :: _) _ => rfl

theorem held_dropOnly : ∀ (groups : List (String × RouteTree)) {t : RouteTree},
    dropOnly groups = some t → held t = held (.node [] groups)
  | [], _, h => by simp [dropOnly] at h
  | [(_, only)], t, h => by
    rw [dropOnly] at h
    split at h
    · cases h
      rw [held_dropCommon only, held, heldAll, heldAll, List.append_nil]
      rfl
    · simp at h
  | _ :: _ :: _, _, h => by simp [dropOnly] at h

end

mutual

theorem populated_dropCommon : ∀ t : RouteTree, Populated t → Populated (dropCommon t)
  | .node [] groups, ht => by
    rw [dropCommon]
    cases h : dropOnly groups with
    | none => exact ht
    | some t => exact populated_dropOnly groups h ht
  | .node (_ :: _) _, ht => ht

theorem populated_dropOnly : ∀ (groups : List (String × RouteTree)) {t : RouteTree},
    dropOnly groups = some t → PopulatedAll groups → Populated t
  | [], _, h, _ => by simp [dropOnly] at h
  | [(_, only)], t, h, ht => by
    rw [dropOnly] at h
    split at h
    · cases h; exact populated_dropCommon only ht.2.1
    · simp at h
  | _ :: _ :: _, _, h, _ => by simp [dropOnly] at h

end

/-! ### Controllers -/

theorem actions_ownController (name : String) (actions : Assoc String Action) :
    (ownController describe name actions).flatMap Controller.actions = Assoc.values actions := by
  unfold ownController
  split
  · next h => rw [List.isEmpty_iff.1 h]; rfl
  · simp [controller]

theorem actions_ne_nil_of_mem_ownController {name : String} {actions : Assoc String Action}
    {c : Controller} (hc : c ∈ ownController describe name actions) : c.actions ≠ [] := by
  unfold ownController at hc
  split at hc
  · simp at hc
  · next h =>
    rw [List.mem_singleton.1 hc, controller]
    simpa [Assoc.values] using h

mutual

/-- Flattening a group keeps its actions in their order. -/
theorem actions_flatten : ∀ (name : String) (t : RouteTree),
    (flatten describe name t).flatMap Controller.actions = held t
  | name, .node actions groups => by
    rw [flatten, held, List.flatMap_append, actions_ownController, actions_flattenAll name groups]

theorem actions_flattenAll : ∀ (start : String) (groups : List (String × RouteTree)),
    (flattenAll describe start groups).flatMap Controller.actions = heldAll groups
  | _, [] => rfl
  | start, (name, t) :: rest => by
    rw [flattenAll, heldAll, List.flatMap_append, actions_flatten (start ++ name) t,
      actions_flattenAll start rest]

end

mutual

theorem actions_ne_nil_of_mem_flatten : ∀ (name : String) (t : RouteTree) {c : Controller},
    c ∈ flatten describe name t → c.actions ≠ []
  | name, .node actions groups, c, hc => by
    rw [flatten, List.mem_append] at hc
    rcases hc with hc | hc
    · exact actions_ne_nil_of_mem_ownController describe hc
    · exact actions_ne_nil_of_mem_flattenAll name groups hc

theorem actions_ne_nil_of_mem_flattenAll : ∀ (start : String) (groups : List (String × RouteTree))
    {c : Controller}, c ∈ flattenAll describe start groups → c.actions ≠ []
  | _, [], c, hc => by simp [flattenAll] at hc
  | start, (name, t) :: rest, c, hc => by
    rw [flattenAll, List.mem_append] at hc
    rcases hc with hc | hc
    · exact actions_ne_nil_of_mem_flatten (start ++ name) t hc
    · exact actions_ne_nil_of_mem_flattenAll start rest hc

end

theorem actions_namespaceOf (name : String) (t : RouteTree) :
    (namespaceOf describe name t).controllers.flatMap Controller.actions = held t := by
  rw [namespaceOf, List.flatMap_append, actions_ownController, actions_flattenAll, held_eq]

theorem actions_ne_nil_of_mem_namespaceOf {name : String} {t : RouteTree} {c : Controller}
    (hc : c ∈ (namespaceOf describe name t).controllers) : c.actions ≠ [] := by
  rw [namespaceOf, List.mem_append] at hc
  rcases hc with hc | hc
  · exact actions_ne_nil_of_mem_ownController describe hc
  · exact actions_ne_nil_of_mem_flattenAll describe "" t.groups hc

/-! ### The whole layout -/

/-- A group without groups holds nothing but its own actions. -/
theorem held_of_groups_isEmpty {t : RouteTree} (h : t.groups.isEmpty) :
    held t = Assoc.values t.actions := by
  rw [held_eq, List.isEmpty_iff.1 h, heldAll, List.append_nil]

theorem map_snd_grouped (group : String) (c : Controller) :
    (ApiDefinition.grouped group c).map Prod.snd = c.actions := by
  simp [ApiDefinition.grouped, Function.comp_def]

theorem flatMap_actions_controllers (groups : List (String × RouteTree))
    (hflat : ∀ g ∈ groups, g.2.groups.isEmpty) :
    (groups.map fun g => controller describe g.1 g.2.actions).flatMap Controller.actions =
      heldAll groups := by
  induction groups with
  | nil => rfl
  | cons g rest ih =>
    rw [List.forall_mem_cons] at hflat
    rw [List.map_cons, List.flatMap_cons, ih hflat.2, heldAll, held_of_groups_isEmpty hflat.1]
    rfl

theorem map_snd_allActions (d : ApiDefinition) :
    d.allActions.map Prod.snd = d.actions ++ d.controllers.flatMap Controller.actions ++
      d.namespaces.flatMap fun n => n.controllers.flatMap Controller.actions := by
  simp only [ApiDefinition.allActions, List.map_append, List.map_map, List.map_flatMap,
    map_snd_grouped, Function.comp_def, List.map_id']

theorem allActions_arrange (t : RouteTree) :
    ((arrange describe t).allActions.map Prod.snd).Perm (held t) := by
  rw [map_snd_allActions, ← held_dropCommon t, held_eq (dropCommon t)]
  simp only [arrange, List.partition_eq_filter_filter]
  rw [flatMap_actions_controllers describe _ fun g hg => (List.mem_filter.1 hg).2,
    List.flatMap_map, List.append_assoc]
  refine List.Perm.append_left _ ?_
  simp only [actions_namespaceOf]
  rw [heldAll_eq_flatMap, ← List.flatMap_append, heldAll_eq_flatMap]
  exact (List.filter_append_perm _ _).flatMap_right _

theorem actions_ne_nil_of_mem_arrange {t : RouteTree} (ht : Populated t) {c : Controller}
    (hc : c ∈ (arrange describe t).controllers) : c.actions ≠ [] := by
  have hgroups := (populatedAll_iff _).1 ((populated_iff _).1 (populated_dropCommon t ht))
  simp only [arrange, List.partition_eq_filter_filter, List.mem_map] at hc
  obtain ⟨g, hg, rfl⟩ := hc
  obtain ⟨hmem, hflat⟩ := List.mem_filter.1 hg
  have hheld := (hgroups g hmem).1
  rwa [held_of_groups_isEmpty hflat] at hheld

theorem controllers_ne_nil_of_mem_arrange {t : RouteTree} (ht : Populated t) {n : ClientNamespace}
    (hn : n ∈ (arrange describe t).namespaces) :
    n.controllers ≠ [] ∧ ∀ c ∈ n.controllers, c.actions ≠ [] := by
  have hgroups := (populatedAll_iff _).1 ((populated_iff _).1 (populated_dropCommon t ht))
  simp only [arrange, List.partition_eq_filter_filter, List.mem_map] at hn
  obtain ⟨g, hg, rfl⟩ := hn
  refine ⟨fun hnil => ?_, fun c hc => actions_ne_nil_of_mem_namespaceOf describe hc⟩
  have hheld := actions_namespaceOf describe g.1 g.2
  rw [hnil] at hheld
  exact (hgroups g (List.mem_filter.1 hg).1).1 hheld.symm

end TypedClient.RouteTree
