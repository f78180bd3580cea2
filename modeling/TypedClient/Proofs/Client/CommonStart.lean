import TypedClient.Proofs.Client.Routes

/-! The common groups of a route tree. They are the longest start of all routes before their last
segments, and dropping them cuts that start from every route. -/

namespace TypedClient.RouteTree

/-! ### Common starts -/

/-- What two routes begin with alike. -/
def shared : List String → List String → List String
  | [], _ => []
  | _ :: _, [] => []
  | s :: r, k :: q => if s = k then s :: shared r q else []

/-- The longest start that all routes have before their last segments. -/
def commonStart : List (List String) → List String
  | [] => []
  | [r] => r.dropLast
  | r :: q :: rest => shared r.dropLast (commonStart (q :: rest))

theorem prefix_shared {p r q : List String} : p <+: shared r q ↔ p <+: r ∧ p <+: q := by
  induction r generalizing p q with
  | nil => rw [shared, List.prefix_nil]; exact ⟨fun h => by simp [h], And.left⟩
  | cons s r ih =>
    cases q with
    | nil => rw [shared, List.prefix_nil]; exact ⟨fun h => by simp [h], And.right⟩
    | cons k q =>
      rw [shared]
      cases p with
      | nil => simp
      | cons x p =>
        split
        · next hk => subst hk; simp only [List.cons_prefix_cons, ih]; tauto
        · next hk =>
          simp only [List.prefix_nil, reduceCtorEq, List.cons_prefix_cons, false_iff, not_and]
          rintro ⟨rfl, -⟩ rfl
          exact absurd rfl hk

theorem prefix_commonStart {rs : List (List String)} (hrs : rs ≠ []) {p : List String} :
    p <+: commonStart rs ↔ ∀ r ∈ rs, p <+: r.dropLast := by
  induction rs with
  | nil => exact absurd rfl hrs
  | cons r rest ih =>
    cases rest with
    | nil => simp [commonStart]
    | cons q rest =>
      rw [commonStart, prefix_shared, ih (List.cons_ne_nil q rest), List.forall_mem_cons]
      simp

/-- A list is determined by its starts. -/
theorem eq_of_prefix_iff {a b : List String} (h : ∀ p, p <+: a ↔ p <+: b) : a = b :=
  ((h a).1 List.prefix_rfl).eq_of_length_le ((h b).2 List.prefix_rfl).length_le

theorem commonStart_congr {rs qs : List (List String)} (h : ∀ r, r ∈ rs ↔ r ∈ qs) :
    commonStart rs = commonStart qs := by
  by_cases hrs : rs = []
  · subst hrs
    have hqs : qs = [] := List.eq_nil_iff_forall_not_mem.2 fun r hr =>
      List.not_mem_nil ((h r).2 hr)
    rw [hqs]
  · have hqs : qs ≠ [] := by
      rintro rfl
      exact hrs (List.eq_nil_iff_forall_not_mem.2 fun r hr => List.not_mem_nil ((h r).1 hr))
    refine eq_of_prefix_iff fun p => ?_
    rw [prefix_commonStart hrs, prefix_commonStart hqs]
    exact forall_congr' fun r => by rw [h r]

/-- Where there is a common start, all routes have its first segment and another one after it. -/
theorem exists_first_of_commonStart {rs : List (List String)} (h : commonStart rs ≠ []) :
    ∃ s, ∀ r ∈ rs, ∃ k q, r = s :: k :: q := by
  obtain ⟨s, start, hstart⟩ := List.exists_cons_of_ne_nil h
  refine ⟨s, fun r hr => ?_⟩
  have hprefix : [s] <+: commonStart rs := by rw [hstart]; simp
  have hr := (prefix_commonStart (List.ne_nil_of_mem hr)).1 hprefix r hr
  match r, hr with
  | [], hr => simp at hr
  | [x], hr => simp at hr
  | x :: k :: q, hr =>
    rw [List.dropLast_cons_cons, List.cons_prefix_cons] at hr
    exact ⟨k, q, by rw [hr.1]⟩

theorem commonStart_map_cons (s : String) {rs : List (List String)} (hrs : rs ≠ [])
    (hnil : [] ∉ rs) : commonStart (rs.map (s :: ·)) = s :: commonStart rs := by
  refine eq_of_prefix_iff fun p => ?_
  rw [prefix_commonStart (by simpa using hrs), List.forall_mem_map]
  have hdrop : ∀ r ∈ rs, (s :: r).dropLast = s :: r.dropLast := fun r hr =>
    List.dropLast_cons_of_ne_nil fun hr' => hnil (hr' ▸ hr)
  cases p with
  | nil => simp
  | cons x p =>
    rw [List.cons_prefix_cons, prefix_commonStart hrs]
    constructor
    · intro h
      have hboth : ∀ r ∈ rs, x = s ∧ p <+: r.dropLast := fun r hr =>
        List.cons_prefix_cons.1 (hdrop r hr ▸ h r hr)
      obtain ⟨r, hr⟩ := List.exists_mem_of_ne_nil rs hrs
      exact ⟨(hboth r hr).1, fun r hr => (hboth r hr).2⟩
    · rintro ⟨rfl, h⟩ r hr
      rw [hdrop r hr]
      exact List.cons_prefix_cons.2 ⟨rfl, h r hr⟩

/-! ### Dropping common groups -/

/-- Induction along the common groups that are dropped. They end where a tree holds something else
than one group, or where its only group has actions or no groups. -/
theorem dropCommon_induction {P : RouteTree → Prop}
    (stop : ∀ t, dropCommon t = t →
      (∀ s only, t = .node [] [(s, only)] → only.actions = [] → only.groups = []) → P t)
    (step : ∀ s only, only.actions = [] →
      dropCommon (.node [] [(s, only)]) = dropCommon only → P only → P (.node [] [(s, only)])) :
    ∀ t, P t
  | .node (a :: actions) groups => stop _ rfl (fun s only h => by simp at h)
  | .node [] [] => stop _ rfl (fun s only h => by simp at h)
  | .node [] (g :: k :: groups) => stop _ rfl (fun s only h => by simp at h)
  | .node [] [(s, only)] => by
    by_cases hdrop : only.actions.isEmpty && !only.groups.isEmpty
    · have hactions : only.actions = [] := by simp at hdrop; exact hdrop.1
      refine step s only hactions ?_ (dropCommon_induction stop step only)
      rw [dropCommon, dropOnly, if_pos hdrop, Option.getD_some]
    · refine stop _ ?_ ?_
      · rw [dropCommon, dropOnly, if_neg hdrop, Option.getD_none]
      · intro s' only' h hactions
        cases h
        simpa [hactions] using hdrop

theorem tidy_dropCommon : ∀ t : RouteTree, Tidy t → Tidy (dropCommon t) := by
  refine dropCommon_induction (fun t hdrop _ ht => ?_) (fun s only _ hdrop ih ht => ?_)
  · rwa [hdrop]
  · rw [hdrop]
    exact ih ht.2.2.2.1

/-- Where no group is dropped, the routes have no common start. -/
theorem commonStart_routes_of_stop {t : RouteTree} (ht : Tidy t) (hpopulated : Populated t)
    (hstop : ∀ s only, t = .node [] [(s, only)] → only.actions = [] → only.groups = []) :
    commonStart (routes t) = [] := by
  by_contra hstart
  obtain ⟨first, hall⟩ := exists_first_of_commonStart hstart
  match t, ht, hpopulated with
  | .node (a :: actions) groups, _, _ =>
    obtain ⟨k, q, h⟩ := hall [] (nil_mem_routes.2 (List.cons_ne_nil a actions))
    cases h
  | .node [] [], _, _ => exact hstart rfl
  | .node [] [(s, only)], _, hpopulated =>
    have hroutes : routes only ≠ [] := routes_ne_nil hpopulated.2.1 hpopulated.1
    by_cases hactions : only.actions = []
    · refine hroutes ?_
      obtain ⟨actions, groups⟩ := only
      have hgroups : groups = [] := hstop s _ rfl hactions
      cases hgroups
      cases hactions
      rfl
    · have hmem : [s] ∈ routes (.node [] [(s, only)]) :=
        cons_mem_routes.2 ⟨_, List.mem_cons_self, rfl, nil_mem_routes.2 hactions⟩
      obtain ⟨k, q, h⟩ := hall [s] hmem
      cases h
  | .node [] ((s, t) :: (k, u) :: groups), ht, hpopulated =>
    have hfirst : ∀ g ∈ (s, t) :: (k, u) :: groups, g.1 = first := by
      intro g hg
      obtain ⟨hheld, hsub⟩ := (populatedAll_iff _).1 hpopulated g hg
      obtain ⟨r, hr⟩ := List.exists_mem_of_ne_nil _ (routes_ne_nil hsub hheld)
      obtain ⟨x, q, h⟩ := hall (g.1 :: r) (cons_mem_routes.2 ⟨g, hg, rfl, hr⟩)
      exact (List.cons.inj h).1
    have hs := hfirst (s, t) (by simp)
    have hk := hfirst (k, u) (by simp)
    have hkeys := ht.2.2.1
    simp [Assoc.keys, show s = k from hs.trans hk.symm] at hkeys

/-- Dropping the common groups cuts the common start from every route. -/
theorem routes_dropCommon : ∀ t : RouteTree, Tidy t → Populated t →
    routes t = (routes (dropCommon t)).map (commonStart (routes t) ++ ·) := by
  refine dropCommon_induction (fun t hdrop hstop ht hpopulated => ?_)
    (fun s only hactions hdrop ih ht hpopulated => ?_)
  · rw [hdrop, commonStart_routes_of_stop ht hpopulated hstop]
    simp
  · have hroutes : routes (.node [] [(s, only)]) = (routes only).map (s :: ·) := by
      simp [routes, routesBelow]
    have hnil : [] ∉ routes only := fun h => nil_mem_routes.1 h hactions
    have hne := routes_ne_nil hpopulated.2.1 hpopulated.1
    rw [hroutes, commonStart_map_cons s hne hnil, hdrop]
    conv_lhs => rw [ih ht.2.2.2.1 hpopulated.2.1, List.map_map]
    rfl

end TypedClient.RouteTree
