import TypedClient.Proofs.Resolution.Finished

/-! When resolution gives types. A node can fail for what it combines, for a reference to a schema
that is not there, and for the name that its type would take. Where no node can fail in these ways
and no schema follows itself, every call gives a type, and so a projection is built. -/

namespace TypedClient

namespace Resolver

open Relation

variable {α β : Type} {d : Document} {s : Site Resolving} {r r' : Resolver} {id : NodeId} {t : TypeId}

/-! ### Rules for calls -/

/-- From a steady state the call gives a value and leaves a steady state. -/
def Succeeds (d : Document) (m : Resolving α) : Prop :=
  ∀ r, Steady d r → ∃ a r', outcome m r = (.ok a, r') ∧ Steady d r'

/-- From a steady state the call gives a value. -/
def GivesValue (d : Document) (m : Resolving α) : Prop :=
  ∀ r, Steady d r → ∃ a r', outcome m r = (.ok a, r')

namespace Succeeds

theorem pure (a : α) : Succeeds d (Pure.pure a : Resolving α) := fun r hr => ⟨a, r, rfl, hr⟩

theorem bind {m : Resolving α} {f : α → Resolving β} (hm : Succeeds d m)
    (hf : ∀ r a r', outcome m r = (.ok a, r') → Succeeds d (f a)) : Succeeds d (m >>= f) := by
  intro r hr
  obtain ⟨a, r₁, ho, hr₁⟩ := hm r hr
  obtain ⟨b, r₂, ho', hr₂⟩ := hf r a r₁ ho r₁ hr₁
  exact ⟨b, r₂, outcome_bind_eq_ok.2 ⟨a, r₁, ho, ho'⟩, hr₂⟩

theorem gives_bind {m : Resolving α} {f : α → Resolving β} (hm : Succeeds d m)
    (hf : ∀ r a r', outcome m r = (.ok a, r') → GivesValue d (f a)) : GivesValue d (m >>= f) := by
  intro r hr
  obtain ⟨a, r₁, ho, hr₁⟩ := hm r hr
  obtain ⟨b, r₂, ho'⟩ := hf r a r₁ ho r₁ hr₁
  exact ⟨b, r₂, outcome_bind_eq_ok.2 ⟨a, r₁, ho, ho'⟩⟩

theorem gives {m : Resolving α} (hm : Succeeds d m) : GivesValue d m := fun r hr =>
  let ⟨a, r', ho, _⟩ := hm r hr
  ⟨a, r', ho⟩

end Succeeds

theorem succeeds_intrinsic (name : String) : Succeeds d (intrinsic name) := by
  intro r hr
  have hyields : Yields d (fun _ => False) _ _ := yields_intrinsic name
  have hleads : Leads d (fun _ => True) r { r with graph := (r.graph.intrinsic name).2 } :=
    .types (.intrinsic r name)
  exact ⟨_, _, rfl, hr.of_leads (hyields hr.faithful rfl).1 hleads⟩

theorem succeeds_typeInfo (id : TypeId) : Succeeds d (typeInfo id) :=
  fun r hr => ⟨_, r, rfl, hr⟩

/-! ### The parts of an object -/

section Parts

theorem succeeds_resolveAll {ids : List NodeId} (h : ∀ c ∈ ids, Succeeds d (s.child c)) :
    Succeeds d (resolveAll s ids) := by
  induction ids with
  | nil => exact Succeeds.pure []
  | cons c rest ih =>
    rw [resolveAll]
    refine (h c List.mem_cons_self).bind fun _ t _ _ => ?_
    exact (ih fun x hx => h x (List.mem_cons_of_mem c hx)).bind fun _ ts _ _ => Succeeds.pure _

theorem succeeds_properties {required : List String} {members : List (String × NodeId)}
    (h : ∀ c ∈ members.map Prod.snd, Succeeds d (s.child c)) :
    Succeeds d (resolveProperties s required members) := by
  induction members with
  | nil => exact Succeeds.pure []
  | cons p rest ih =>
    rw [resolveProperties]
    refine (h p.2 List.mem_cons_self).bind fun _ t _ _ => ?_
    exact (ih fun x hx => h x (List.mem_cons_of_mem _ hx)).bind fun _ ts _ _ => Succeeds.pure _

theorem succeeds_allOf (hs : s.document = d) {members : List NodeId}
    (hmerging : (d.merging? members).isSome)
    (h : ∀ c ∈ d.baseNodes members, Succeeds d (s.child c)) :
    Succeeds d (resolveAllOf s members) := by
  subst hs
  match members with
  | [] => exact Succeeds.pure _
  | [m] => exact (h m (List.mem_singleton.2 rfl)).bind fun _ t _ _ => Succeeds.pure _
  | m :: n :: ms =>
    unfold Document.merging? at hmerging
    unfold resolveAllOf
    dsimp only at hmerging ⊢
    rw [sortMembers_site s]
    split
    · next fault hsorted =>
      rw [hsorted] at hmerging
      cases hmerging
    · exact Succeeds.pure _
    · next base plain hsorted =>
      have hbase : base ∈ s.document.baseNodes (m :: n :: ms) := by
        rw [Document.baseNodes_cons_cons]
        have hbases := (sortMembers_ok hsorted).1
        exact hbases ▸ List.mem_singleton.2 rfl
      exact (h base hbase).bind fun _ t _ _ => Succeeds.pure _
    · next bases plain hnone hone hsorted =>
      rw [hsorted] at hmerging
      split at hmerging
      · next heq =>
        cases heq
        exact (hnone rfl).elim
      · next heq =>
        cases heq
        exact (hone _ rfl).elim
      · cases hmerging

theorem succeeds_generics {hints : TypeHints} {shape : ObjectShape} {start : TypeInfo}
    (hgenerics : (Document.genericity? hints shape).isSome)
    (h : ∀ c ∈ Document.genericNodes hints shape, Succeeds d (s.child c)) :
    Succeeds d (applyGenerics s hints shape start) := by
  unfold Document.genericity? at hgenerics
  unfold Document.genericNodes Document.definitionNodes at h
  unfold applyGenerics
  split
  · next hgeneric =>
    rw [if_pos hgeneric] at h hgenerics
    have hdefinition : Succeeds d (applyDefinition s hints shape start) := by
      unfold applyDefinition
      split
      · exact Succeeds.pure _
      · next hno =>
        rw [if_neg hno] at h hgenerics
        split
        · next c hc =>
          rw [hc] at h
          exact (h c (List.mem_append_left _ (List.mem_singleton.2 rfl))).bind fun _ t _ _ =>
            (succeeds_typeInfo t).bind fun _ info _ _ => Succeeds.pure _
        · next hnone =>
          rw [hnone] at hgenerics
          split
          · exact Succeeds.pure _
          · next hrecord =>
            rw [if_neg hrecord] at hgenerics
            cases hgenerics
    refine hdefinition.bind fun _ applied _ _ => ?_
    exact (succeeds_resolveAll fun c hc => h c (List.mem_append_right _ hc)).bind
      fun _ ts _ _ => Succeeds.pure _
  · next hgeneric =>
    rw [if_neg hgeneric] at h
    split
    · exact Succeeds.pure _
    · next additional hadditional =>
      rw [hadditional] at h
      refine (succeeds_intrinsic _).bind fun _ key _ _ => ?_
      cases additional with
      | any => exact (Succeeds.pure key).bind fun _ value _ _ => Succeeds.pure _
      | schema c =>
        exact (h c (List.mem_singleton.2 rfl)).bind fun _ value _ _ => Succeeds.pure _

end Parts

/-! ### Nodes -/

theorem gives_object (hs : s.document = d) {schema : SchemaNode} {shape : ObjectShape}
    (hplan : (d.plan? schema shape).isSome)
    (h : ∀ c ∈ d.objectNodes schema.hints shape, Succeeds d (s.child c)) :
    GivesValue d (resolveObject s id schema shape) := by
  obtain ⟨plan, hplan⟩ := Option.isSome_iff_exists.1 hplan
  unfold Document.plan? at hplan
  split at hplan
  · next base merged generics hmerging hgenerics =>
    unfold Document.objectNodes at h
    unfold resolveObject
    refine (succeeds_allOf hs (by rw [hmerging]; rfl) fun c hc =>
      h c (List.mem_append_left _ (List.mem_append_left _ hc))).gives_bind
        fun r merging r' hallOf => ?_
    have hmerged := resolveAllOf_merged hallOf
    rw [hs] at hmerged
    refine (succeeds_properties fun c hc => h c (List.mem_append_left _
      (List.mem_append_right _ ?_))).gives_bind fun _ properties _ _ => ?_
    · rw [← hmerged]
      exact hc
    refine (succeeds_generics (by rw [hgenerics]; rfl) fun c hc =>
      h c (List.mem_append_right _ hc)).gives_bind fun _ applied _ _ => ?_
    -- adding the type and marking it cannot fail
    obtain ⟨made, nameable⟩ := applied
    cases nameable <;> exact fun r hr => ⟨_, _, rfl⟩
  · cases hplan

/-- Resolving a node gives a type when the node has a source and the calls that it makes succeed. -/
theorem gives_kind (hs : s.document = d) (hsource : (d.source? id).isSome)
    (h : ∀ c ∈ d.next id, Succeeds d (s.child c))
    (href : ∀ name, d.Refers id name → Succeeds d (s.reference name)) :
    GivesValue d (resolveKind s id) := by
  subst hs
  unfold Document.source? at hsource
  unfold Document.next Document.kindNodes at h
  unfold Document.Refers at href
  unfold resolveKind
  simp only [Site.node]
  dsimp only at hsource
  generalize s.document.arena.get id = schema at *
  obtain ⟨kind, description, nullable, hints⟩ := schema
  cases kind with
  | empty => exact (Succeeds.pure _).gives
  | reference name => exact (href name rfl).gives
  | object shape => exact gives_object rfl (by simpa using hsource) h
  | array items =>
    refine Succeeds.gives_bind ?_ fun _ element _ _ =>
      (succeeds_typeInfo element).gives_bind fun _ info _ _ r hr => ⟨_, _, rfl⟩
    cases items with
    | none => exact Succeeds.pure _
    | some c => exact h c (List.mem_singleton.2 rfl)
  | primitive primitive format => exact (succeeds_intrinsic _).gives
  | enum primitive literals => exact fun r hr => ⟨_, _, rfl⟩
  | combination how members =>
    dsimp only at hsource h ⊢
    unfold Document.combinationNodes at h
    unfold resolveCombination
    unfold Document.sayingMembers at h hsource
    simp only [Site.node]
    generalize members.filter (fun m => !isNullOnly (s.document.arena.get m)) = saying at *
    rcases saying with _ | ⟨m, _ | ⟨n, ms⟩⟩
    · exact (Succeeds.pure _).gives
    · exact (h m (List.mem_singleton.2 rfl)).gives
    · cases how with
      | allOf => exact gives_object rfl (by simpa using hsource) h
      | anyOf | oneOf => cases hsource

/-! ### Calls -/

/-- Nodes that cannot fail: each has a source, what it needs is among them again, and a type that
would take the name of a schema that one of them declares can take it. -/
structure Live (d : Document) (L : NodeId → Prop) : Prop where
  source : ∀ {x}, L x → (d.source? x).isSome
  next : ∀ {x}, L x → ∀ c ∈ d.next x, L c
  reference : ∀ {x name}, L x → d.Refers x name →
    ∃ root, Assoc.get? d.schemas name = some root ∧ L root
  named : ∀ {name root r source made}, L root → Assoc.get? d.schemas name = some root →
    Faithful d r → r.graph.Ordered → r.cycles = [] → d.source? root = some source →
    source.Makes r made true → ∃ parsed, TypeName.parse name = .ok parsed

variable {L : NodeId → Prop}

/-- Where no schema follows itself nothing is cut. -/
theorem Sound.uncut (hs : Sound d r) (hacyclic : ∀ name, ¬ TransGen d.Follows name name) :
    r.cycles = [] := by
  by_contra hne
  obtain ⟨cycle, hc⟩ := List.exists_mem_of_ne_nil _ hne
  obtain ⟨name, hname⟩ := (hs.cycles cycle hc).follows
  exact hacyclic name hname

/-- A name that a node on the path refers to is not on the path. -/
theorem not_mem_path (hacyclic : ∀ name, ¬ TransGen d.Follows name name) {path : List String}
    (hroute : d.Route path id) {name : String} (hrefers : d.Refers id name) : name ∉ path := by
  intro hmem
  obtain ⟨owner, ho, hlead⟩ := hroute.reaches_owner hmem
  exact hacyclic name (.tail' hlead ⟨id, ho, hrefers⟩)

/-- Naming a type cannot fail when the name parses, if the type is to take it. -/
theorem gives_applyName {root : NodeId} {name : String}
    (h : Assoc.get? r.nameable t = some root → ∃ parsed, TypeName.parse name = .ok parsed) :
    ∃ r', outcome (applyName name root t) r = (.ok (), r') := by
  unfold applyName
  rw [outcome_bind, outcome_get]
  dsimp only
  split
  · next hmarked =>
    obtain ⟨parsed, hp⟩ := h hmarked
    rw [hp]
    exact ⟨{ r with graph := r.graph.set t ((r.graph.get t).rename parsed) }, rfl⟩
  · exact ⟨r, rfl⟩

section Calls

variable (hd : d.Forest) {path : List String}

include hd

theorem steady_inner (hid : ¬ d.Declares id) (hpath : OnPath d path id)
    (hroute : d.Route path id) (hr : Steady d r)
    (ho : outcome (resolveNode d path id) r = (.ok t, r')) : Steady d r' := by
  obtain ⟨hl, -⟩ := resolves_node hd hroute (fun name hn => absurd ⟨name, hn⟩ hid) r
    hr.faithful.bounded fun name hn => absurd ⟨name, hn⟩ hid
  rw [ho] at hl
  exact hr.of_leads (yields_node hd hid hpath hr.faithful ho).1 hl

theorem steady_reference {name : String} (hnodup : path.Nodup)
    (hchain : (path ++ [name]).IsChain d.Follows) (hr : Steady d r)
    (ho : outcome (resolveReference d path name) r = (.ok t, r')) : Steady d r' := by
  obtain ⟨hl, -⟩ := resolves_reference hd hnodup hchain r hr.faithful.bounded trivial
  rw [ho] at hl
  exact hr.of_leads (yields_reference hd path name hr.faithful ho).1 hl

variable (hacyclic : ∀ name, ¬ TransGen d.Follows name name) (hL : Live d L)

include hacyclic hL

omit hacyclic in
/-- A node gives its type when the calls that it makes succeed. -/
theorem gives_node (hid : L id)
    (hnext : ∀ c ∈ d.next id, Succeeds d (resolveNode d path c))
    (href : ∀ name, d.Refers id name → Succeeds d (resolveReference d path name)) :
    GivesValue d (resolveNode d path id) := by
  intro r hr
  obtain ⟨t, r₁, hkind⟩ := gives_kind (s := site d path) rfl (hL.source hid) hnext href r hr
  rcases outcome_resolveNode hd path id r with
    ⟨u, -, ho⟩ | ⟨-, ⟨e, r₂, hfail, -⟩ | ⟨u, r₂, -, ho⟩⟩
  · exact ⟨u, r, ho⟩
  · rw [hkind] at hfail
    cases hfail
  · exact ⟨u, _, ho⟩

/-- A type that was made for the node of a schema can take the name of the schema. -/
theorem parses_of_nameable {root : NodeId} {name : String}
    (hn : Assoc.get? d.schemas name = some root) (hroot : L root)
    (hroute : d.Route (path ++ [name]) root) (hr : Steady d r)
    (hnew : Assoc.get? r.memo root = none)
    (ho : outcome (resolveNode d (path ++ [name]) root) r = (.ok t, r'))
    (hmarked : Assoc.get? r'.nameable t = some root) :
    ∃ parsed, TypeName.parse name = .ok parsed := by
  have hmem : name ∈ path ++ [name] := List.mem_append_right _ (List.mem_singleton.2 rfl)
  have honPath : OnPath d (path ++ [name]) root := OnPath.root hd hn hmem
  rcases outcome_resolveNode hd (path ++ [name]) root r with
    ⟨u, hm, -⟩ | ⟨-, ⟨e, r₁, -, h⟩ | ⟨u, r₁, hkind, h⟩⟩
  · rw [hnew] at hm
    cases hm
  · rw [ho] at h
    cases h
  rw [ho] at h
  cases h
  -- the type was made for the node, from a faithful state in which the node had none
  obtain ⟨source, r₂, htold, hf, -, hfree, hbrings⟩ := resolveKind_yields hd honPath
    (fun c hc => yields_node hd (hd.not_declares_of_mem_next hc) (honPath.next hd hc))
    (fun other _ => yields_reference hd (path ++ [name]) other) hr.faithful hnew hkind
  have hunmarked : ∀ v, Assoc.get? r₂.nameable v ≠ some root := by
    intro v hv
    have htyped := hf.nameable hv
    rw [Typed, hfree] at htyped
    cases htyped
  cases hbrings with
  | passes => exact absurd hmarked (hunmarked t)
  | @makes made mayName hmakes =>
    cases mayName with
    | false => exact absurd hmarked (hunmarked _)
    | true =>
      obtain ⟨hl, -⟩ := resolves_site hd hroute
        (fun c hc => (resolves_node hd (hroute.next hc) fun name hn =>
          absurd hc (hd.not_mem_next_of_root hn)).weaken
            (fun _ _ name hn => absurd hc (hd.not_mem_next_of_root hn)) fun _ _ _ h => h)
        (fun other hother =>
          resolves_reference hd hroute.nodup (hroute.chain_concat hother)) r
        hr.faithful.bounded trivial
      rw [hkind] at hl
      have hordered := (invariant_of_steps Step.orderedTypes hl.steps hr.types).graph
      have huncut := (invariant_of_steps Sound.step hl.steps hr.sound).uncut hacyclic
      exact hL.named hroot hn hf
        (hordered.of_insert hf.bounded.any hf.bounded.intrinsics) huncut htold hmakes

/-- Once the node of a schema has its type, the type takes the name of the schema, if it may. -/
theorem gives_settle {root : NodeId} {name : String}
    (hn : Assoc.get? d.schemas name = some root) (hroot : L root)
    (hroute : d.Route (path ++ [name]) root) (hr : Steady d r)
    (hreg : Assoc.get? r.registry name = none)
    (ho : outcome (resolveNode d (path ++ [name]) root) r = (.ok t, r')) :
    ∃ r'', outcome (settle name root t) r' = (.ok t, r'') := by
  have hnew : Assoc.get? r.memo root = none := by
    cases hm : Assoc.get? r.memo root with
    | none => rfl
    | some u =>
      rw [hr.faithful.registered hn hm] at hreg
      cases hreg
  obtain ⟨r'', happly⟩ :=
    gives_applyName (parses_of_nameable hd hacyclic hL hn hroot hroute hr hnew ho)
  exact ⟨_, outcome_bind_eq_ok.2 ⟨(), r'', happly, rfl⟩⟩

end Calls

mutual

theorem succeeds_node (hd : d.Forest) (hacyclic : ∀ name, ¬ TransGen d.Follows name name)
    (hL : Live d L) {path : List String} {id : NodeId} (hid : L id) (hinner : ¬ d.Declares id)
    (hpath : OnPath d path id) (hroute : d.Route path id) :
    Succeeds d (resolveNode d path id) := by
  intro r hr
  obtain ⟨t, r', ho⟩ := gives_node hd hL hid
    (fun c hc => succeeds_node hd hacyclic hL (hL.next hid c hc)
      (hd.not_declares_of_mem_next hc) (hpath.next hd hc) (hroute.next hc))
    (fun name hn => succeeds_reference hd hacyclic hL (hL.reference hid hn) hroute.nodup
      (hroute.chain_concat hn) (not_mem_path hacyclic hroute hn)) r hr
  exact ⟨t, r', ho, steady_inner hd hinner hpath hroute hr ho⟩
termination_by depthBelow d path + id + 1
decreasing_by
  · have := hd.next_lt hc
    simp only [NodeId] at *
    omega
  · omega

theorem succeeds_reference (hd : d.Forest) (hacyclic : ∀ name, ¬ TransGen d.Follows name name)
    (hL : Live d L) {path : List String} {name : String}
    (hroot : ∃ root, Assoc.get? d.schemas name = some root ∧ L root) (hnodup : path.Nodup)
    (hchain : (path ++ [name]).IsChain d.Follows) (hname : name ∉ path) :
    Succeeds d (resolveReference d path name) := by
  intro r hr
  suffices h : ∃ t r', outcome (resolveReference d path name) r = (.ok t, r') by
    obtain ⟨t, r', ho⟩ := h
    exact ⟨t, r', ho, steady_reference hd hnodup hchain hr ho⟩
  obtain ⟨root, hn, hlive⟩ := hroot
  rcases outcome_resolveReference d path name r with
    ⟨u, hreg, ho⟩ | ⟨hreg, ⟨hmem, -⟩ | ⟨-, hnone, -⟩ | ⟨node, -, hnode, ho⟩⟩
  · exact ⟨u, r, ho⟩
  · exact absurd hmem hname
  · rw [hn] at hnone
    cases hnone
  · rw [hn] at hnode
    cases hnode
    have hdepth : depthBelow d (path ++ [name]) + root + 1 < depthBelow d path :=
      depthBelow_lt (by simpa using hname) hn
    have hroute : d.Route (path ++ [name]) root := Document.Route.root hnodup hchain hname hn
    have hpath : OnPath d (path ++ [name]) root :=
      OnPath.root hd hn (List.mem_append_right _ (List.mem_singleton.2 rfl))
    obtain ⟨t, r₁, hcall⟩ := gives_node hd hL hlive
      (fun c hc => succeeds_node hd hacyclic hL (hL.next hlive c hc)
        (hd.not_declares_of_mem_next hc) (hpath.next hd hc) (hroute.next hc))
      (fun other ho => succeeds_reference hd hacyclic hL (hL.reference hlive ho) hroute.nodup
        (hroute.chain_concat ho) (not_mem_path hacyclic hroute ho)) r hr
    obtain ⟨r₂, hsettle⟩ := gives_settle hd hacyclic hL hn hlive hroute hr hreg hcall
    rw [ho]
    exact ⟨t, r₂, outcome_bind_eq_ok.2 ⟨t, r₁, hcall, hsettle⟩⟩
termination_by depthBelow d path
decreasing_by
  · have := hd.next_lt hc
    simp only [NodeId] at *
    omega
  · omega

end

/-! ### Projections -/

section Whole

variable (hd : d.Forest) (hacyclic : ∀ name, ¬ TransGen d.Follows name name) (hL : Live d L)

include hd hacyclic hL

theorem succeeds_named {name : String} {root : NodeId}
    (hn : Assoc.get? d.schemas name = some root) (hroot : L root) : Succeeds d (named d name) :=
  succeeds_reference hd hacyclic hL ⟨root, hn, hroot⟩ List.nodup_nil (List.IsChain.singleton name)
    List.not_mem_nil

theorem succeeds_all (hroots : ∀ {name root}, Assoc.get? d.schemas name = some root → L root) :
    Succeeds d (all d) := by
  have hnamed : ∀ p ∈ d.schemas, Succeeds d (discard (named d p.1)) := by
    intro p hp
    cases hn : Assoc.get? d.schemas p.1 with
    | none => exact absurd (List.mem_map.2 ⟨p, hp, rfl⟩) (Assoc.get?_eq_none_iff.1 hn)
    | some root =>
      have hcall := succeeds_named hd hacyclic hL hn (hroots hn)
      show Succeeds d (named d p.1 >>= fun _ => pure PUnit.unit)
      exact hcall.bind fun _ _ _ _ => Succeeds.pure _
  unfold all
  generalize d.schemas = schemas at hnamed
  induction schemas with
  | nil => exact Succeeds.pure ()
  | cons p rest ih =>
    show Succeeds d (discard (named d p.1) >>= fun _ => rest.forM _)
    exact (hnamed p List.mem_cons_self).bind fun _ _ _ _ =>
      ih fun q hq => hnamed q (List.mem_cons_of_mem p hq)

theorem asks_of_live {ids : List NodeId}
    (hids : ∀ id ∈ ids, L id ∧ ¬ d.Declares id ∧ OnPath d [] id) (hr : Steady d r) :
    ∃ r', Asks d ids r r' := by
  induction ids generalizing r with
  | nil => exact ⟨r, .nil⟩
  | cons id rest ih =>
    obtain ⟨hid, hinner, hpath⟩ := hids id List.mem_cons_self
    obtain ⟨t, r₁, ho, hr₁⟩ :=
      succeeds_node hd hacyclic hL hid hinner hpath (route_nil d id) r hr
    obtain ⟨r', hrest⟩ := ih (fun x hx => hids x (List.mem_cons_of_mem id hx)) hr₁
    exact ⟨r', .cons ho hrest⟩

end Whole

/-- A well-formed document is built when no schema follows itself and nothing in it can fail. -/
theorem build_of_live [MediaType.Reading] [Text.Transliteration] (hd : d.WellFormed)
    (options : Client.Options)
    (hacyclic : ∀ name, ¬ TransGen d.Follows name name) (hL : Live d L)
    (hroots : ∀ {name root}, Assoc.get? d.schemas name = some root → L root)
    (hasked : ∀ id ∈ d.operations.flatMap Client.askedNodes, L id) :
    ∃ p, Projection.build d options = .ok p := by
  obtain ⟨_, r₁, hall, hr₁⟩ := succeeds_all hd.forest hacyclic hL hroots {} (steady_initial d)
  obtain ⟨r₂, hasks⟩ := asks_of_live hd.forest hacyclic hL
    (fun id hid => ⟨hasked id hid, asked_apart hd hid⟩) hr₁
  obtain ⟨client, hclient⟩ := (Client.performs_project options r₁ r₂).2 hasks
  have hrun : (Projection.resolve d options).run.run {} = (.ok client, r₂) :=
    outcome_bind_eq_ok.2 ⟨(), r₁, hall, hclient⟩
  unfold Projection.build
  rw [hrun]
  exact ⟨_, rfl⟩

end Resolver

end TypedClient
