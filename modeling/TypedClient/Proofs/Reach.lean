import TypedClient.Proofs.Graph
import TypedClient.Reach

/-! What exploring a graph finds: exactly what is at the end of a path, where edges lead to nodes
only. So the components that are found by it are those of the graph. -/

namespace TypedClient.Graph

open Relation

variable {nodes : List String} {next : String → List String}

/-! ### Exploring -/

/-- What is added to what has been seen is reached from something to do. -/
theorem reached_of_mem_explore (todo seen : List String) {y : String}
    (h : y ∈ explore nodes next todo seen) :
    y ∈ seen ∨ ∃ x ∈ todo, ReflTransGen (Edge next) x y := by
  induction todo, seen using explore.induct nodes next with
  | case1 seen =>
    rw [explore] at h
    exact .inl h
  | case2 seen x todo hnew ih =>
    rw [explore, dif_pos hnew] at h
    rcases ih h with hseen | ⟨z, hz, hreach⟩
    · rcases List.mem_cons.1 hseen with rfl | hseen
      · exact .inr ⟨y, List.mem_cons_self, .refl⟩
      · exact .inl hseen
    · rcases List.mem_append.1 hz with hz | hz
      · exact .inr ⟨x, List.mem_cons_self, hreach.head hz⟩
      · exact .inr ⟨z, List.mem_cons_of_mem x hz, hreach⟩
  | case3 seen x todo hold ih =>
    rw [explore, dif_neg hold] at h
    exact (ih h).imp_right fun ⟨z, hz, hreach⟩ => ⟨z, List.mem_cons_of_mem x hz, hreach⟩

/-- What is found from a node is at the end of a path of at least one edge. -/
theorem path_of_mem_from_ {x y : String} (h : y ∈ from_ nodes next x) :
    TransGen (Edge next) x y := by
  rcases reached_of_mem_explore (next x) [] h with hnone | ⟨z, hz, hreach⟩
  · exact absurd hnone List.not_mem_nil
  · exact TransGen.head' hz hreach

/-- Nothing that has been seen or is a node to do is left out. -/
theorem mem_explore (todo seen : List String) {x : String}
    (h : x ∈ seen ∨ x ∈ todo ∧ x ∈ nodes) : x ∈ explore nodes next todo seen := by
  induction todo, seen using explore.induct nodes next with
  | case1 seen =>
    rw [explore]
    exact h.resolve_right fun h => absurd h.1 List.not_mem_nil
  | case2 seen z todo hnew ih =>
    rw [explore, dif_pos hnew]
    refine ih ?_
    rcases h with hseen | ⟨htodo, hx⟩
    · exact .inl (List.mem_cons_of_mem z hseen)
    · rcases List.mem_cons.1 htodo with rfl | htodo
      · exact .inl List.mem_cons_self
      · exact .inr ⟨List.mem_append_right _ htodo, hx⟩
  | case3 seen z todo hold ih =>
    rw [explore, dif_neg hold]
    refine ih ?_
    rcases h with hseen | ⟨htodo, hx⟩
    · exact .inl hseen
    · rcases List.mem_cons.1 htodo with rfl | htodo
      · exact .inl (Decidable.byContradiction fun hseen => hold ⟨hseen, hx⟩)
      · exact .inr ⟨htodo, hx⟩

/-- Where the edges of what has been seen lead to what has been seen or is to do, no edge leads out
of what is found. -/
theorem explore_closed (hin : Within nodes next) (todo seen : List String)
    (h : ∀ x ∈ seen, ∀ y, Edge next x y → y ∈ seen ∨ y ∈ todo) {x y : String}
    (hx : x ∈ explore nodes next todo seen) (hedge : Edge next x y) :
    y ∈ explore nodes next todo seen := by
  induction todo, seen using explore.induct nodes next with
  | case1 seen =>
    rw [explore] at hx ⊢
    exact (h x hx y hedge).resolve_right List.not_mem_nil
  | case2 seen z todo hnew ih =>
    rw [explore, dif_pos hnew] at hx ⊢
    refine ih (fun a ha b hb => ?_) hx
    rcases List.mem_cons.1 ha with rfl | ha
    · exact .inr (List.mem_append_left _ hb)
    · rcases h a ha b hb with hseen | htodo
      · exact .inl (List.mem_cons_of_mem z hseen)
      · rcases List.mem_cons.1 htodo with rfl | htodo
        · exact .inl List.mem_cons_self
        · exact .inr (List.mem_append_right _ htodo)
  | case3 seen z todo hold ih =>
    rw [explore, dif_neg hold] at hx ⊢
    refine ih (fun a ha b hb => ?_) hx
    rcases h a ha b hb with hseen | htodo
    · exact .inl hseen
    · rcases List.mem_cons.1 htodo with rfl | htodo
      · exact .inl (Decidable.byContradiction fun hseen => hold ⟨hseen, hin hb⟩)
      · exact .inr htodo

/-- What is found from a node is what is at the end of a path of at least one edge. -/
theorem mem_from_ (hin : Within nodes next) {x y : String} :
    y ∈ from_ nodes next x ↔ TransGen (Edge next) x y := by
  refine ⟨path_of_mem_from_, fun hpath => ?_⟩
  induction hpath with
  | single hedge => exact mem_explore _ _ (.inr ⟨hedge, hin hedge⟩)
  | tail _ hedge ih =>
    exact explore_closed hin _ _ (fun a ha => absurd ha List.not_mem_nil) ih hedge

/-! ### Components -/

variable {x y : String} {component : List String}

theorem mem_componentOf (hin : Within nodes next) (hx : x ∈ nodes) :
    y ∈ componentOf nodes next x ↔ y = x ∨ Together next x y := by
  rw [componentOf, List.mem_filter, Bool.or_eq_true, Bool.and_eq_true, beq_iff_eq,
    List.contains_iff_mem, List.contains_iff_mem, mem_from_ hin, mem_from_ hin]
  refine and_iff_right_of_imp ?_
  rintro (rfl | h)
  · exact hx
  · obtain ⟨w, -, hedge⟩ := TransGen.tail'_iff.1 h.1
    exact hin hedge

/-- A component is that of each of its nodes. -/
theorem componentOf_eq (hin : Within nodes next) (hx : x ∈ nodes)
    (hy : y ∈ componentOf nodes next x) : componentOf nodes next y = componentOf nodes next x := by
  rcases (mem_componentOf hin hx).1 hy with rfl | h
  · rfl
  have hmem : y ∈ nodes := List.mem_of_mem_filter hy
  have hsame : ∀ z, z ∈ componentOf nodes next y ↔ z ∈ componentOf nodes next x := fun z => by
    rw [mem_componentOf hin hmem, mem_componentOf hin hx]
    constructor
    · rintro (rfl | hz)
      · exact .inr h
      · exact .inr (h.trans hz)
    · rintro (rfl | hz)
      · exact .inr h.symm
      · exact .inr (h.symm.trans hz)
  refine List.filter_congr fun z hz => Bool.eq_iff_iff.2 ?_
  simpa only [componentOf, List.mem_filter, hz, true_and] using hsame z

theorem mem_components : component ∈ Components.components nodes next ↔
    ∃ x ∈ nodes, componentOf nodes next x = component := by
  show component ∈ (nodes.map (componentOf nodes next)).eraseDups ↔ _
  rw [List.mem_eraseDups, List.mem_map]

instance : LawfulComponents where
  ne_nil _ hin hcomponent := by
    obtain ⟨x, hx, rfl⟩ := mem_components.1 hcomponent
    exact List.ne_nil_of_mem ((mem_componentOf hin hx).2 (.inl rfl))
  perm {nodes next} hnodup hin := by
    have hdistinct : (Components.components nodes next).flatten.Nodup := by
      refine List.nodup_flatten.2 ⟨fun component hcomponent => ?_, ?_⟩
      · obtain ⟨x, -, rfl⟩ := mem_components.1 hcomponent
        exact hnodup.filter _
      · refine (nodup_eraseDups _).imp_of_mem fun {a b} ha hb hne z hza hzb => hne ?_
        obtain ⟨x, hx, rfl⟩ := mem_components.1 ha
        obtain ⟨y, hy, rfl⟩ := mem_components.1 hb
        rw [← componentOf_eq hin hx hza, componentOf_eq hin hy hzb]
    refine (List.perm_ext_iff_of_nodup hdistinct hnodup).2 fun x => ?_
    rw [List.mem_flatten]
    constructor
    · rintro ⟨component, hcomponent, hx⟩
      obtain ⟨y, -, rfl⟩ := mem_components.1 hcomponent
      exact List.mem_of_mem_filter hx
    · intro hx
      exact ⟨_, mem_components.2 ⟨x, hx, rfl⟩, (mem_componentOf hin hx).2 (.inl rfl)⟩
  mem_iff _ hin hcomponent hx := by
    obtain ⟨z, hz, rfl⟩ := mem_components.1 hcomponent
    rw [← componentOf_eq hin hz hx, mem_componentOf hin (List.mem_of_mem_filter hx)]

end TypedClient.Graph
