import TypedClient.Proofs.Client.Layout

/-! Where the actions of a route tree stand. Actions and groups are told apart by their names in
every place, so a place has one route; a tree that was filled action by action has the routes that
its actions were placed under. Dropping the common groups cuts the longest start that all routes go
on from by two segments or more. The controllers of a tree are named after its routes. -/

namespace TypedClient.RouteTree

mutual

/-- The routes of a tree: the segments on the way to each place in which actions stand. -/
def routes : RouteTree → List (List String)
  | .node actions groups => (if actions.isEmpty then [] else [[]]) ++ routesBelow groups

def routesBelow : List (String × RouteTree) → List (List String)
  | [] => []
  | (s, t) :: rest => (routes t).map (s :: ·) ++ routesBelow rest

end

mutual

/-- Actions stand under their own names, and names differ in every place. -/
def Tidy : RouteTree → Prop
  | .node actions groups =>
    (Assoc.keys actions).Nodup ∧ (∀ p ∈ actions, p.2.name = p.1) ∧
      (Assoc.keys groups).Nodup ∧ TidyAll groups

def TidyAll : List (String × RouteTree) → Prop
  | [] => True
  | (_, t) :: rest => Tidy t ∧ TidyAll rest

end

theorem tidy_iff (t : RouteTree) : Tidy t ↔
    (Assoc.keys t.actions).Nodup ∧ (∀ p ∈ t.actions, p.2.name = p.1) ∧
      (Assoc.keys t.groups).Nodup ∧ TidyAll t.groups := by
  cases t; exact Iff.rfl

theorem tidyAll_iff (groups : List (String × RouteTree)) :
    TidyAll groups ↔ ∀ g ∈ groups, Tidy g.2 := by
  induction groups with
  | nil => simp [TidyAll]
  | cons g rest ih => rw [TidyAll, ih, List.forall_mem_cons]

theorem tidy_empty : Tidy empty := (tidy_iff _).2 ⟨List.nodup_nil, by simp [empty, actions],
  List.nodup_nil, trivial⟩

/-- The group of a name is tidy, also where there is none. -/
theorem tidy_get? {t : RouteTree} (ht : Tidy t) (s : String) :
    Tidy ((Assoc.get? t.groups s).getD empty) := by
  cases hs : Assoc.get? t.groups s with
  | none => exact tidy_empty
  | some sub => exact (tidyAll_iff _).1 ((tidy_iff t).1 ht).2.2.2 _ (Assoc.mem_of_get? hs)

/-! ### Routes -/

theorem mem_routesBelow {groups : List (String × RouteTree)} {r : List String} :
    r ∈ routesBelow groups ↔ ∃ g ∈ groups, ∃ u ∈ routes g.2, g.1 :: u = r := by
  induction groups with
  | nil => simp [routesBelow]
  | cons g rest ih =>
    rw [routesBelow, List.mem_append, ih, List.mem_map, List.exists_mem_cons_iff]

theorem nil_notMem_routesBelow (groups : List (String × RouteTree)) : [] ∉ routesBelow groups := by
  intro h
  obtain ⟨g, -, u, -, hu⟩ := mem_routesBelow.1 h
  exact List.cons_ne_nil g.1 u hu

theorem nil_mem_routes {t : RouteTree} : [] ∈ routes t ↔ t.actions ≠ [] := by
  obtain ⟨actions, groups⟩ := t
  rw [routes, List.mem_append, or_iff_left (nil_notMem_routesBelow groups)]
  cases actions <;> simp [RouteTree.actions]

/-- Routes with a first segment lead through the group of that name. -/
theorem cons_mem_routes {t : RouteTree} {s : String} {r : List String} :
    s :: r ∈ routes t ↔ ∃ g ∈ t.groups, g.1 = s ∧ r ∈ routes g.2 := by
  obtain ⟨actions, groups⟩ := t
  have hnot : s :: r ∉ (if actions.isEmpty then [] else [[]] : List (List String)) := by
    split <;> simp
  rw [routes, List.mem_append, or_iff_right hnot, mem_routesBelow]
  simp only [List.cons.injEq, RouteTree.groups]
  constructor
  · rintro ⟨g, hg, u, hu, hs, rfl⟩
    exact ⟨g, hg, hs, hu⟩
  · rintro ⟨g, hg, hs, hr⟩
    exact ⟨g, hg, r, hr, hs, rfl⟩

theorem cons_mem_routes_iff_get? {t : RouteTree} (ht : Tidy t) {s : String} {r : List String} :
    s :: r ∈ routes t ↔ r ∈ routes ((Assoc.get? t.groups s).getD empty) := by
  rw [cons_mem_routes]
  have hkeys := ((tidy_iff t).1 ht).2.2.1
  cases hs : Assoc.get? t.groups s with
  | none =>
    refine iff_of_false (fun ⟨g, hg, hname, _⟩ => ?_) (by simp [empty, routes, routesBelow])
    exact Assoc.get?_eq_none_iff.1 hs (List.mem_map.2 ⟨g, hg, hname⟩)
  | some sub =>
    refine ⟨?_, fun hr => ⟨(s, sub), Assoc.mem_of_get? hs, rfl, hr⟩⟩
    rintro ⟨⟨_, sub'⟩, hg, rfl, hr⟩
    rw [Assoc.get?_of_mem hkeys hg] at hs
    cases hs
    exact hr

mutual

theorem nodup_routes : ∀ t : RouteTree, Tidy t → (routes t).Nodup
  | .node actions groups, ⟨_, _, hkeys, hall⟩ => by
    rw [routes]
    refine List.Nodup.append (by split <;> simp) (nodup_routesBelow groups hkeys hall) ?_
    intro r hr hbelow
    split at hr
    · exact absurd hr List.not_mem_nil
    · rw [List.mem_singleton.1 hr] at hbelow
      exact nil_notMem_routesBelow groups hbelow

theorem nodup_routesBelow : ∀ groups : List (String × RouteTree),
    (Assoc.keys groups).Nodup → TidyAll groups → (routesBelow groups).Nodup
  | [], _, _ => List.nodup_nil
  | (s, t) :: rest, hkeys, ⟨ht, hall⟩ => by
    obtain ⟨hs, hkeys⟩ := List.nodup_cons.1 hkeys
    rw [routesBelow]
    refine List.Nodup.append ((nodup_routes t ht).map List.cons_injective)
      (nodup_routesBelow rest hkeys hall) ?_
    intro r hr hbelow
    obtain ⟨u, -, rfl⟩ := List.mem_map.1 hr
    obtain ⟨g, hg, v, -, hv⟩ := mem_routesBelow.1 hbelow
    exact hs (List.mem_map.2 ⟨g, hg, (List.cons.inj hv).1⟩)

end

/-- A tree that holds an action has a route. -/
theorem routes_ne_nil : ∀ {t : RouteTree}, Populated t → held t ≠ [] → routes t ≠ []
  | .node (_ :: _) groups, _, _ => by simp [routes]
  | .node [] [], _, hheld => absurd rfl hheld
  | .node [] ((s, t) :: rest), hpopulated, _ => by
    obtain ⟨hheld, hpopulated, -⟩ := hpopulated
    have hsub := routes_ne_nil hpopulated hheld
    simp [routes, routesBelow, hsub]

/-! ### Placing -/

theorem tidy_insert (a : Action) (path : List String) {t : RouteTree} (ht : Tidy t) :
    Tidy (insert a path t) := by
  induction path generalizing t with
  | nil =>
    obtain ⟨actions, groups⟩ := t
    obtain ⟨hactions, hnames, hgroups⟩ := ht
    refine ⟨Assoc.nodup_keys_put hactions a.name a, fun p hp => ?_, hgroups⟩
    rcases Assoc.mem_put hp with rfl | hp
    · rfl
    · exact hnames p hp
  | cons s path ih =>
    have hold := tidy_get? ht s
    obtain ⟨actions, groups⟩ := t
    obtain ⟨hactions, hnames, hkeys, hall⟩ := ht
    refine ⟨hactions, hnames, Assoc.nodup_keys_put hkeys s _, (tidyAll_iff _).2 fun g hg => ?_⟩
    rcases Assoc.mem_put hg with rfl | hg
    · exact ih hold
    · exact (tidyAll_iff groups).1 hall g hg

theorem groups_insert_cons (a : Action) (s : String) (path : List String) (t : RouteTree) :
    (insert a (s :: path) t).groups = Assoc.modify t.groups s empty (insert a path) := by
  cases t; rfl

theorem actions_insert_cons (a : Action) (s : String) (path : List String) (t : RouteTree) :
    (insert a (s :: path) t).actions = t.actions := by
  cases t; rfl

theorem actions_insert_nil_ne_nil (a : Action) (t : RouteTree) : (insert a [] t).actions ≠ [] := by
  obtain ⟨actions, groups⟩ := t
  intro hnil
  have hget := Assoc.get?_put_self actions a.name a
  rw [show Assoc.put actions a.name a = [] from hnil] at hget
  cases hget

theorem mem_routes_insert (a : Action) (path : List String) {t : RouteTree} (ht : Tidy t)
    {r : List String} : r ∈ routes (insert a path t) ↔ r = path ∨ r ∈ routes t := by
  induction path generalizing t r with
  | nil =>
    cases r with
    | nil => exact iff_of_true (nil_mem_routes.2 (actions_insert_nil_ne_nil a t)) (.inl rfl)
    | cons k r =>
      rw [cons_mem_routes, cons_mem_routes, or_iff_right (List.cons_ne_nil k r)]
      cases t
      rfl
  | cons s path ih =>
    cases r with
    | nil =>
      rw [nil_mem_routes, nil_mem_routes, actions_insert_cons,
        or_iff_right (List.cons_ne_nil s path).symm]
    | cons k r =>
      rw [cons_mem_routes_iff_get? (tidy_insert a (s :: path) ht), cons_mem_routes_iff_get? ht,
        groups_insert_cons, Assoc.modify, Assoc.get?_put, List.cons.injEq]
      by_cases hk : s = k
      · subst hk
        rw [if_pos rfl, Option.getD_some, ih (tidy_get? ht s), eq_self, true_and]
      · rw [if_neg hk, eq_false (Ne.symm hk), false_and, false_or]

end TypedClient.RouteTree
