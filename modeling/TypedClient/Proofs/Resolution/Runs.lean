import TypedClient.Proofs.Resolution.Parts

/-! Every call of a resolver is a run of steps. On its path a call registers no name of the path and
no name that it does not meet; a name on the path is met again only by way of a cycle. -/

namespace TypedClient

open Relation

namespace Document

/-- Resolving `id` meets a reference from which references lead to the schema of that name. -/
def Meets (d : Document) (id : NodeId) (name : String) : Prop :=
  ∃ node first, d.Within id node ∧ d.Refers node first ∧ ReflTransGen d.Follows first name

/-- The path on which a node is resolved: each name follows the one before it, and the node is met
in the schema of the last one. -/
structure Route (d : Document) (path : List String) (id : NodeId) : Prop where
  nodup : path.Nodup
  chain : path.IsChain d.Follows
  inside : ∀ owner ∈ path.getLast?, d.InSchema owner id

variable {d : Document} {path : List String} {id : NodeId} {name : String}

theorem Route.next (h : d.Route path id) {c : NodeId} (hc : c ∈ d.next id) : d.Route path c where
  nodup := h.nodup
  chain := h.chain
  inside owner ho := by
    obtain ⟨root, hr, hw⟩ := h.inside owner ho
    exact ⟨root, hr, hw.tail hc⟩

theorem Route.chain_concat (h : d.Route path id) (hn : d.Refers id name) :
    (path ++ [name]).IsChain d.Follows := by
  refine h.chain.append (List.IsChain.singleton name) fun owner ho other hother => ?_
  cases hother
  exact ⟨id, h.inside owner ho, hn⟩

theorem Route.root (hnodup : path.Nodup) (hchain : (path ++ [name]).IsChain d.Follows)
    (hname : name ∉ path) (hr : Assoc.get? d.schemas name = some id) :
    d.Route (path ++ [name]) id where
  nodup := by
    rw [List.nodup_append]
    refine ⟨hnodup, List.nodup_singleton name, fun a ha b hb => ?_⟩
    rw [List.mem_singleton.1 hb]
    rintro rfl
    exact hname ha
  chain := hchain
  inside owner ho := by
    rw [List.getLast?_concat] at ho
    cases ho
    exact ⟨id, hr, .refl⟩

/-- A name on the path leads to the schema in which the path ends. -/
theorem Route.reaches_owner (h : d.Route path id) (hname : name ∈ path) :
    ∃ owner, d.InSchema owner id ∧ ReflTransGen d.Follows name owner := by
  obtain ⟨before, after, rfl⟩ := List.append_of_mem hname
  have hne : before ++ name :: after ≠ [] :=
    List.append_ne_nil_of_right_ne_nil _ (List.cons_ne_nil _ _)
  refine ⟨_, h.inside _ (List.getLast?_eq_getLast_of_ne_nil hne), ?_⟩
  have hchain := h.chain.right_of_append
  rw [List.getLast_append_of_right_ne_nil _ _ (List.cons_ne_nil _ _)]
  exact List.relationReflTransGen_of_exists_isChain_cons after hchain rfl

end Document

namespace Resolver

variable {d : Document} {path : List String} {id : NodeId} {name : String} {r r' : Resolver}

/-- The part of a path from a name on, with that name again, is a cycle. -/
theorem isCycle_cut (hnodup : path.Nodup) (hchain : (path ++ [name]).IsChain d.Follows)
    (hname : name ∈ path) : IsCycle d (path.dropWhile (· != name) ++ [name]) := by
  have hsuffix : path.dropWhile (· != name) <:+ path := List.dropWhile_suffix _
  obtain ⟨rest, hrest⟩ : ∃ rest, path.dropWhile (· != name) = name :: rest := by
    clear hnodup hchain hsuffix
    induction path with
    | nil => exact absurd hname List.not_mem_nil
    | cons a path ih =>
      by_cases ha : a = name
      · subst ha
        exact ⟨path, List.dropWhile_cons_of_neg (by simp)⟩
      · rw [List.dropWhile_cons_of_pos (by simpa using ha)]
        exact ih ((List.mem_cons.1 hname).resolve_left fun e => ha e.symm)
  refine ⟨name, rest, by rw [hrest], ?_, ?_⟩
  · rw [← hrest]
    exact hnodup.sublist hsuffix.sublist
  · obtain ⟨front, hfront⟩ := hsuffix
    rw [← hfront, List.append_assoc] at hchain
    exact hchain.right_of_append

/-! ### What may be registered -/

/-- The names that resolving a node may register. -/
def ahead (d : Document) (path : List String) (id : NodeId) (name : String) : Prop :=
  name ∉ path ∧ d.Meets id name

/-- The names that resolving a named schema may register. -/
def onward (d : Document) (path : List String) (name other : String) : Prop :=
  other ∉ path ∧ ReflTransGen d.Follows name other

theorem ahead_of_next {c : NodeId} (hc : c ∈ d.next id) (h : ahead d path c name) :
    ahead d path id name := by
  obtain ⟨hname, node, first, hw, hf, hlead⟩ := h
  exact ⟨hname, node, first, hw.head hc, hf, hlead⟩

theorem ahead_of_refers {other : String} (hn : d.Refers id name) (h : onward d path name other) :
    ahead d path id other :=
  ⟨h.1, id, name, .refl, hn, h.2⟩

theorem onward_of_root {other : String} (hr : Assoc.get? d.schemas name = some id)
    (h : ahead d (path ++ [name]) id other) : onward d path name other := by
  obtain ⟨hother, node, first, hw, hf, hlead⟩ := h
  exact ⟨fun hmem => hother (List.mem_append_left _ hmem),
    .head ⟨node, ⟨id, hr, hw⟩, hf⟩ hlead⟩

/-! ### Nodes and names -/

/-- Keeping the type of a node that had none when its call began. -/
theorem Leads.remember {may : String → Prop} {t : TypeId} (h : Leads d may r r')
    (hnone : Assoc.get? r.memo id = none) (hs : Settled d r' id t)
    (hroot : ∀ name, Assoc.get? d.schemas name = some id → Assoc.get? r'.registry name = none) :
    Leads d may r { r' with memo := Assoc.put r'.memo id t } := by
  refine ⟨h.steps.tail (.remember r' id t hs hroot), fun {id' t'} hm => ?_⟩
  have hne : id ≠ id' := by
    rintro rfl
    rw [hnone] at hm
    cases hm
  exact (Assoc.get?_put_of_ne hne _ t).trans (h.memo hm)

/-- Naming a type changes the graph at most. -/
theorem applyName_cases (name : String) (node : NodeId) (t : TypeId) (r : Resolver) :
    (outcome (applyName name node t) r).2 = r ∨
      ∃ parsed : TypeName, Assoc.get? r.nameable t = some node ∧
        (outcome (applyName name node t) r).2 = { r with
          graph := r.graph.set t { r.graph.get t with
            name := parsed.name
            fullName := parsed.fullName
            scope := parsed.scope
            isBuiltin := false } } := by
  unfold applyName
  rw [outcome_bind, outcome_get]
  dsimp only
  split
  · next hn =>
    split
    · exact .inl rfl
    · next parsed _ => exact .inr ⟨parsed, hn, rfl⟩
  · exact .inl rfl

theorem resolves_settle {may : String → Prop} {node : NodeId} (t : TypeId) (hmay : may name)
    (hn : Assoc.get? d.schemas name = some node) :
    Resolves d may
      (fun r => Assoc.get? r.registry name = none ∧ Assoc.get? r.memo node = some t)
      (settle name node t)
      fun u r => u < r.graph.size ∧ Assoc.get? r.registry name = some u := by
  intro r hb hpre
  obtain ⟨hnew, hm⟩ := hpre
  have happly : (outcome (applyName name node t) r).2 = r ∨
      TypeStep d r (outcome (applyName name node t) r).2 := by
    rcases applyName_cases name node t r with h | ⟨parsed, hnameable, h⟩
    · exact .inl h
    · rw [h]
      exact .inr (.rename r t node name parsed hnameable hn hnew)
  unfold settle
  rw [outcome_bind]
  generalize outcome (applyName name node t) r = run at happly ⊢
  obtain ⟨e | a, r'⟩ := run
  · refine ⟨?_, fun u hu => by cases hu⟩
    rcases happly with rfl | h
    · exact Leads.refl _
    · exact Leads.types h
  · have hnamed : Leads d may r r' ∧ r'.memo = r.memo ∧ r'.registry = r.registry := by
      rcases happly with rfl | h
      · exact ⟨Leads.refl _, rfl, rfl⟩
      · exact ⟨Leads.types h, h.same.1, h.same.2.1⟩
    obtain ⟨hl, hmemo, hregistry⟩ := hnamed
    rw [← hmemo] at hm
    rw [← hregistry] at hnew
    refine ⟨⟨hl.steps.tail (.register r' name node t hmay hn hnew hm), hl.memo⟩, fun u hu => ?_⟩
    cases hu
    exact ⟨(bounded_of_steps hl.steps hb).memo hm, Assoc.get?_put_self ..⟩

/-- The calls for the next nodes and for references give what the call for the node needs. -/
theorem resolves_site (hd : d.Forest) (hroute : d.Route path id)
    (hchild : ∀ c ∈ d.next id, Resolves d (ahead d path c) (fun _ => True) (resolveNode d path c)
      fun t r => Assoc.get? r.memo c = some t)
    (hreference : ∀ name, d.Refers id name → Resolves d (onward d path name) (fun _ => True)
      (resolveReference d path name) fun t r => t < r.graph.size ∧
        (Assoc.get? r.registry name = some t ∨
          (t = TypeGraph.any ∧ r.cycles ≠ [] ∧ name ∈ path))) :
    Resolves d (ahead d path id) (fun _ => True) (resolveKind (site d path) id) fun t r =>
      Settled d r id t ∧ Origin d r id t := by
  refine resolves_kind rfl
    (fun c hc => ⟨hd.not_declares_of_mem_next hc, (hchild c hc).mono fun _ => ahead_of_next hc⟩)
    fun name hn => ((hreference name hn).mono fun _ => ahead_of_refers hn).weaken
      (fun _ h => h) fun t r _ hr => ⟨hr.1, hr.2.imp_right fun h => ⟨h.1, h.2.1, ?_⟩⟩
  exact hroute.reaches_owner h.2.2

mutual

theorem resolves_node (hd : d.Forest) {path : List String} {id : NodeId} (hroute : d.Route path id)
    (hroot : ∀ name, Assoc.get? d.schemas name = some id → name ∈ path) :
    Resolves d (ahead d path id)
      (fun r => ∀ name, Assoc.get? d.schemas name = some id → Assoc.get? r.registry name = none)
      (resolveNode d path id) fun t r => Assoc.get? r.memo id = some t := by
  have hkind := resolves_site hd hroute
    (fun c hc => (resolves_node hd (hroute.next hc) fun name hn =>
      absurd hc (hd.not_mem_next_of_root hn)).weaken
        (fun _ _ name hn => absurd hc (hd.not_mem_next_of_root hn)) fun _ _ _ h => h)
    (fun name hn => resolves_reference hd hroute.nodup (hroute.chain_concat hn))
  intro r hb hpre
  obtain ⟨hl, hok⟩ := hkind r hb trivial
  rcases outcome_resolveNode hd path id r with
    ⟨t, hm, ho⟩ | ⟨hm, ⟨e, r', hfail, ho⟩ | ⟨t, r', hmade, ho⟩⟩
  · rw [ho]
    refine ⟨Leads.refl r, fun u hu => ?_⟩
    cases hu
    exact hm
  · rw [hfail] at hl
    rw [ho]
    refine ⟨hl, fun u hu => ?_⟩
    cases hu
  · rw [hmade] at hl hok
    rw [ho]
    refine ⟨hl.remember hm (hok t rfl).1 fun name hn => ?_, fun u hu => ?_⟩
    · rw [registered_of_steps hl.steps fun h => h.1 (hroot name hn)]
      exact hpre name hn
    · cases hu
      exact Assoc.get?_put_self ..
termination_by depthBelow d path + id + 1
decreasing_by
  · have := hd.next_lt hc
    simp only [NodeId] at *
    omega
  · omega

theorem resolves_reference (hd : d.Forest) {path : List String} {name : String}
    (hnodup : path.Nodup) (hchain : (path ++ [name]).IsChain d.Follows) :
    Resolves d (onward d path name) (fun _ => True) (resolveReference d path name) fun t r =>
      t < r.graph.size ∧ (Assoc.get? r.registry name = some t ∨
        (t = TypeGraph.any ∧ r.cycles ≠ [] ∧ name ∈ path)) := by
  intro r hb _
  rcases outcome_resolveReference d path name r with
    ⟨t, hreg, ho⟩ | ⟨hreg, ⟨hname, ho⟩ | ⟨-, -, ho⟩ | ⟨node, hname, hn, ho⟩⟩
  · rw [ho]
    refine ⟨Leads.refl r, fun u hu => ?_⟩
    cases hu
    exact ⟨hb.registry hreg, .inl hreg⟩
  · rw [ho]
    have hlast : ∀ other ∈ (path.dropWhile (· != name) ++ [name]).getLast?,
        Assoc.get? r.registry other = none := by
      intro other hother
      rw [List.getLast?_concat] at hother
      cases hother
      exact hreg
    refine ⟨⟨.single (.cut r _ (isCycle_cut hnodup hchain hname) hlast), id⟩, fun u hu => ?_⟩
    cases hu
    exact ⟨hb.any, .inr ⟨rfl, List.append_ne_nil_of_right_ne_nil _ (List.cons_ne_nil _ _), hname⟩⟩
  · rw [ho]
    refine ⟨Leads.refl r, fun u hu => ?_⟩
    cases hu
  · have hroot : ∀ other, Assoc.get? d.schemas other = some node → other = name :=
      fun other hother => hd.name_unique hother hn
    have hdepth : depthBelow d (path ++ [name]) + node + 1 < depthBelow d path :=
      depthBelow_lt (by simpa using hname) hn
    have hnode := resolves_node hd (Document.Route.root hnodup hchain hname hn)
      fun other hother => by
        rw [hroot other hother]
        exact List.mem_append_right _ (List.mem_singleton.2 rfl)
    obtain ⟨hl, hok⟩ := hnode r hb fun other hother => by
      rw [hroot other hother]
      exact hreg
    rw [ho, outcome_bind]
    rcases hcall : outcome (resolveNode d (path ++ [name]) node) r with ⟨e | t, r'⟩
    · rw [hcall] at hl
      refine ⟨hl.mono fun _ => onward_of_root hn, fun u hu => ?_⟩
      cases hu
    · rw [hcall] at hl hok
      have hmay : ¬ ahead d (path ++ [name]) node name := fun h =>
        h.1 (List.mem_append_right _ (List.mem_singleton.2 rfl))
      have hnew : Assoc.get? r'.registry name = none :=
        (registered_of_steps hl.steps hmay).trans hreg
      have honward : onward d path name name := ⟨hname, .refl⟩
      obtain ⟨hl', hok'⟩ := resolves_settle t honward hn r' (bounded_of_steps hl.steps hb)
        ⟨hnew, hok t rfl⟩
      refine ⟨(hl.mono fun _ => onward_of_root hn).trans hl', fun u hu => ?_⟩
      obtain ⟨hbound, hregistered⟩ := hok' u hu
      exact ⟨hbound, .inl hregistered⟩
termination_by depthBelow d path
decreasing_by assumption

end

/-! ### Calls from outside -/

theorem route_nil (d : Document) (id : NodeId) : d.Route [] id where
  nodup := List.nodup_nil
  chain := List.IsChain.nil
  inside owner h := by cases h

theorem resolves_named (hd : d.Forest) (name : String) :
    Resolves d (ReflTransGen d.Follows name) (fun _ => True) (named d name)
      fun t r => Assoc.get? r.registry name = some t := by
  have hchain : ([] ++ [name]).IsChain d.Follows := List.IsChain.singleton name
  have hcall := resolves_reference hd List.nodup_nil hchain
  exact (hcall.mono fun _ h => h.2).weaken (fun _ h => h) fun t r _ hr =>
    hr.2.resolve_right fun h => absurd h.2.2 List.not_mem_nil

/-- Resolving a node from outside, where it has not been resolved yet. -/
theorem resolves_outer_site (hd : d.Forest) (id : NodeId) :
    Resolves d (d.Meets id) (fun _ => True) (resolveKind (site d []) id) fun t r =>
      Settled d r id t ∧ Origin d r id t := by
  have hroute := route_nil d id
  refine (resolves_site hd hroute ?_ ?_).mono fun _ h => h.2
  · intro c hc
    have hroot : ∀ name, Assoc.get? d.schemas name ≠ some c := fun name hn =>
      absurd hc (hd.not_mem_next_of_root hn)
    exact (resolves_node hd (hroute.next hc) fun name hn => absurd hn (hroot name)).weaken
      (fun _ _ name hn => absurd hn (hroot name)) fun _ _ _ h => h
  · intro name hn
    exact resolves_reference hd hroute.nodup (hroute.chain_concat hn)

/-- A call for a node from outside finds the type of the node, or makes it, or fails. -/
theorem outcome_node (hd : d.Forest) (id : NodeId) (hb : r.Bounded) :
    (∃ t, Assoc.get? r.memo id = some t ∧ outcome (node d id) r = (.ok t, r)) ∨
    (Assoc.get? r.memo id = none ∧ ∃ r', Leads d (d.Meets id) r r' ∧
      ((∃ e, outcome (node d id) r = (.error e, r')) ∨
        ∃ t, outcome (resolveKind (site d []) id) r = (.ok t, r') ∧ Settled d r' id t ∧
          Origin d r' id t ∧
          outcome (node d id) r = (.ok t, { r' with memo := Assoc.put r'.memo id t }))) := by
  obtain ⟨hl, hok⟩ := resolves_outer_site hd id r hb trivial
  rcases outcome_resolveNode hd [] id r with
    hfound | ⟨hm, ⟨e, r', hfail, ho⟩ | ⟨t, r', hmade, ho⟩⟩
  · exact .inl hfound
  · rw [hfail] at hl
    exact .inr ⟨hm, r', hl, .inl ⟨e, ho⟩⟩
  · rw [hmade] at hl hok
    exact .inr ⟨hm, r', hl, .inr ⟨t, hmade, (hok t rfl).1, (hok t rfl).2, ho⟩⟩

theorem resolves_all (hd : d.Forest) :
    Resolves d (fun _ => True) (fun _ => True) (all d)
      fun _ r => ∀ p ∈ d.schemas, (Assoc.get? r.registry p.1).isSome := by
  unfold all
  generalize d.schemas = schemas
  induction schemas with
  | nil => exact Resolves.pure fun r _ _ p hp => absurd hp List.not_mem_nil
  | cons p rest ih =>
    show Resolves d _ _ (discard (named d p.1) >>= fun _ => rest.forM _) _
    have hnamed : Resolves d (fun _ => True) (fun _ => True) (discard (named d p.1))
        fun _ r => (Assoc.get? r.registry p.1).isSome :=
      (((resolves_named hd p.1).mono fun _ _ => trivial).weaken (fun _ h => h)
        fun t r _ (hr : Assoc.get? r.registry p.1 = some t) =>
          (by rw [hr]; rfl : (Assoc.get? r.registry p.1).isSome)).map _
    refine hnamed.bind fun _ => ?_
    refine (ih.frame (F := fun r => (Assoc.get? r.registry p.1).isSome) ?_).weaken
      (fun r hr => ⟨hr, trivial⟩) fun _ r _ hr q hq => ?_
    · intro r r' hl h
      obtain ⟨t, ht⟩ := Option.isSome_iff_exists.1 h
      rw [(extends_of_steps hl.steps).registry ht]
      rfl
    · rcases List.mem_cons.1 hq with rfl | hq
      · exact hr.1
      · exact hr.2 q hq

end Resolver

end TypedClient
