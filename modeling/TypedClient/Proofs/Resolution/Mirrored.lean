import TypedClient.Proofs.Document.Alike
import TypedClient.Proofs.Model.Mirror
import TypedClient.Proofs.Resolution.Origins

/-! Resolving documents that say the same. As long as nothing was cut, the types that two faithful
states have for related nodes look alike, however the two came to them: both come from what the
documents say, and what a node needs comes to an end. -/

namespace TypedClient

namespace Document

variable {d : Document}

/-- What is resolved for a node before it, or the node of the schema that it refers to. -/
def Needs (d : Document) (x y : NodeId) : Prop :=
  y ∈ d.next x ∨ ∃ name, d.Refers x name ∧ Assoc.get? d.schemas name = some y

/-- Where the references of a schema come to an end, so does what its nodes need. -/
theorem acc_needs_of_follows (hd : d.Forest) {name : String}
    (h : Acc (fun other name => d.Follows name other) name) :
    ∀ x, d.InSchema name x → Acc (fun y x => d.Needs x y) x := by
  induction h with
  | intro name _ ih =>
    intro x
    induction x using Nat.strongRecOn with
    | ind x ihx =>
      rintro ⟨root, hn, hw⟩
      refine Acc.intro x fun y hy => ?_
      rcases hy with hy | ⟨other, hrefers, ho⟩
      · exact ihx y (hd.next_lt hy) ⟨root, hn, hw.tail hy⟩
      · exact ih other ⟨x, ⟨root, hn, hw⟩, hrefers⟩ y ⟨y, ho, .refl⟩

end Document

namespace Resolver

variable {d d' : Document} {M : NodeId → NodeId → Prop} {r r' : Resolver} {x x' : NodeId}
  {t t' : TypeId}

/-- What a node needs that has its type comes to an end, as long as nothing was cut. -/
theorem Sound.acc_needs (hs : Sound d r) (hd : d.Forest) (hc : r.cycles = [])
    (hx : r.Typed x t) : Acc (fun y x => d.Needs x y) x := by
  induction x using Nat.strongRecOn generalizing t with
  | ind x ih =>
    refine Acc.intro x fun y hy => ?_
    rcases hy with hy | ⟨name, hrefers, hn⟩
    · obtain ⟨u, hu⟩ := Option.isSome_iff_exists.1 (hs.next hx y hy)
      exact ih y (hd.next_lt hy) hu
    · rcases hs.reference hx hrefers with hregistered | ⟨-, hcut, -⟩
      · exact Document.acc_needs_of_follows hd (hs.acyclic hc hregistered) y ⟨y, hn, .refl⟩
      · exact absurd hc hcut

/-! ### Pairs of types -/

/-- The types of two states that stand for the same: they are looked up by one name, or they are the
types of related nodes. -/
def Pairs (M : NodeId → NodeId → Prop) (r r' : Resolver) (t t' : TypeId) : Prop :=
  (∃ name, Assoc.get? r.graph.intrinsics name = some t ∧
    Assoc.get? r'.graph.intrinsics name = some t') ∨
  ∃ x x', M x x' ∧ r.Typed x t ∧ r'.Typed x' t'

/-- Two types look alike. -/
def LookAlike (M : NodeId → NodeId → Prop) (r r' : Resolver) (t t' : TypeId) : Prop :=
  ∃ info info', r.graph.get? t = some info ∧ r'.graph.get? t' = some info' ∧
    info.Matches (Pairs M r r') info'

theorem LookAlike.get (h : LookAlike M r r' t t') :
    (r.graph.get t).Matches (Pairs M r r') (r'.graph.get t') := by
  obtain ⟨info, info', hinfo, hinfo', hsame⟩ := h
  rwa [TypeGraph.get_of_get? hinfo, TypeGraph.get_of_get? hinfo']

theorem pairs_any (hg : r.graph.Ordered) (hg' : r'.graph.Ordered) :
    Pairs M r r' TypeGraph.any TypeGraph.any :=
  .inl ⟨TypeGraph.anyName, hg.any.2, hg'.any.2⟩

/-- A type that refers to nothing matches itself. -/
theorem matches_self {R : TypeId → TypeId → Prop} {t : TypeInfo} (h : t = t.bare) :
    t.Matches R t := by
  rw [h]
  exact ⟨rfl, .none, .none, .none, .nil, .nil⟩

theorem lookAlike_intrinsic (hg : r.graph.Ordered) (hg' : r'.graph.Ordered) {name : String}
    (h : Assoc.get? r.graph.intrinsics name = some t)
    (h' : Assoc.get? r'.graph.intrinsics name = some t') : LookAlike M r r' t t' :=
  ⟨_, _, hg.intrinsic h, hg'.intrinsic h', matches_self rfl⟩

theorem pairs_all {xs xs' : List NodeId} {ts ts' : List TypeId} (hM : List.Forall₂ M xs xs')
    (h : List.Forall₂ r.Typed xs ts) (h' : List.Forall₂ r'.Typed xs' ts') :
    List.Forall₂ (Pairs M r r') ts ts' := by
  induction hM generalizing ts ts' with
  | nil =>
    cases h
    cases h'
    exact .nil
  | cons hx _ ih =>
    cases h with
    | cons ht hts =>
      cases h' with
      | cons ht' hts' => exact .cons (.inr ⟨_, _, hx, ht, ht'⟩) (ih hts hts')

theorem pairs_option {o o' : Option NodeId} {b b' : Option TypeId} (hM : Option.Rel M o o')
    (h : Option.Rel r.Typed o b) (h' : Option.Rel r'.Typed o' b') :
    Option.Rel (Pairs M r r') b b' := by
  cases hM with
  | none =>
    cases h
    cases h'
    exact .none
  | some hx =>
    cases h with
    | some ht =>
      cases h' with
      | some ht' => exact .some (.inr ⟨_, _, hx, ht, ht'⟩)

theorem pairs_properties {fields fields' : Assoc String Field}
    {properties properties' : Assoc String Property}
    (hM : Assoc.Alike (Field.Matches M) fields fields')
    (h : List.Forall₂ r.MakesProperty fields properties)
    (h' : List.Forall₂ r'.MakesProperty fields' properties') :
    List.Forall₂ (Property.Matches (Pairs M r r')) properties properties' := by
  induction hM generalizing properties properties' with
  | nil =>
    cases h
    cases h'
    exact .nil
  | cons hf _ ih =>
    cases h with
    | cons hp hps =>
      cases h' with
      | cons hp' hps' =>
        obtain ⟨u, hu, rfl⟩ := hp
        obtain ⟨u', hu', rfl⟩ := hp'
        obtain ⟨hname, hnode, hnullable, hrequired, hdescription⟩ := hf
        refine .cons ⟨hname, .inr ⟨_, _, hnode, hu, hu'⟩, ?_⟩ (ih hps hps')
        simp only [Field.property, hnullable, hrequired, hdescription]

/-! ### Types that are made -/

section Makes

variable (hg : r.graph.Ordered) (hg' : r'.graph.Ordered)

/-- Generics that match make types alike that look alike, when the definitions do. -/
theorem genericity_mirrored {generics generics' : Genericity} {start start' made made' : TypeInfo}
    {nameable nameable' : Bool} (hM : generics.Matches M generics')
    (h : generics.Makes r start made nameable) (h' : generics'.Makes r' start' made' nameable')
    (hstart : start.Matches (Pairs M r r') start')
    (hdefinition : ∀ {c arguments c' u u'}, generics = .applied c arguments → M c c' →
      r.Typed c u → r'.Typed c' u' → LookAlike M r r' u u') :
    made.Matches (Pairs M r r') made' ∧ nameable = nameable' := by
  obtain ⟨hbare, helement, hbase, hold, harguments, hproperties⟩ := hstart
  cases hM with
  | plain =>
    cases h
    cases h'
    exact ⟨⟨hbare, helement, hbase, hold, harguments, hproperties⟩, rfl⟩
  | definition hxs =>
    cases h with
    | definition ha =>
      cases h' with
      | definition ha' =>
        exact ⟨⟨hbare, helement, hbase, hold, pairs_all hxs ha ha', hproperties⟩, rfl⟩
  | applied hx hxs =>
    cases h with
    | applied hd ha =>
      cases h' with
      | @applied _ _ u' _ hd' ha' =>
        have hsame := (hdefinition rfl hx hd hd').get
        refine ⟨⟨?_, helement, hbase, .some (.inr ⟨_, _, hx, hd, hd'⟩), pairs_all hxs ha ha',
          hproperties⟩, by rw [hsame.isBuiltin]⟩
        rw [hsame.isBuiltin, hsame.name]
        exact congrArg (fun t : TypeInfo => { t with
          isBuiltin := (r'.graph.get u').isBuiltin, name := (r'.graph.get u').name }) hbare
  | keyed hxs =>
    cases h with
    | keyed ha =>
      cases h' with
      | keyed ha' =>
        exact ⟨⟨congrArg (fun t : TypeInfo => { t with name := TypeGraph.recordName }) hbare,
          helement, hbase, hold, pairs_all hxs ha ha', hproperties⟩, rfl⟩
  | record hx =>
    have hrecord : ({ start with name := TypeGraph.recordName, isGeneric := true } :
        TypeInfo).bare = ({ start' with name := TypeGraph.recordName, isGeneric := true } :
        TypeInfo).bare :=
      congrArg (fun t : TypeInfo => { t with name := TypeGraph.recordName, isGeneric := true })
        hbare
    cases h with
    | openRecord hk =>
      cases hx
      cases h' with
      | openRecord hk' =>
        have hkeys : Pairs M r r' _ _ := .inl ⟨_, hk, hk'⟩
        exact ⟨⟨hrecord, helement, hbase, hold, .cons hkeys (.cons hkeys .nil), hproperties⟩, rfl⟩
    | record hk hv =>
      cases hx with
      | some hx =>
        cases h' with
        | record hk' hv' =>
          exact ⟨⟨hrecord, helement, hbase, hold, .cons (.inl ⟨_, hk, hk'⟩)
            (.cons (.inr ⟨_, _, hx, hv, hv'⟩) .nil), hproperties⟩, rfl⟩

include hg hg' in
/-- Sources that match make types alike, when the types of the nodes that they are made from look
alike. -/
theorem makes_mirrored {source source' : Source} {made made' : TypeInfo}
    {nameable nameable' : Bool} (htold : d.source? x = some source)
    (hM : source.Matches M source') (h : source.Makes r made nameable)
    (h' : source'.Makes r' made' nameable')
    (hnext : ∀ {c c' u u'}, c ∈ d.next x → M c c' → r.Typed c u → r'.Typed c' u' →
      LookAlike M r r' u u') :
    made.Matches (Pairs M r r') made' ∧ nameable = nameable' := by
  cases hM with
  | any | builtin | schema | node => cases h
  | enum t =>
    cases h
    cases h'
    obtain ⟨primitive, literals, rfl⟩ := Document.source?_enum htold
    exact ⟨matches_self rfl, rfl⟩
  | array description hx =>
    cases h with
    | openArray =>
      cases hx
      cases h'
      have hany := (lookAlike_intrinsic (M := M) hg hg' hg.any.2 hg'.any.2).get
      refine ⟨⟨?_, .some (pairs_any hg hg'), .none, .none, .nil, .nil⟩, rfl⟩
      exact congrArg (fun name => (TypeInfo.bare
        { TypeInfo.builtin (name ++ "[]") with isArray := true, description })) hany.name
    | array hu =>
      cases hx with
      | some hx =>
        cases h' with
        | array hu' =>
          have hitems := (hnext (Document.mem_next_of_source? htold (.inr (.inl ⟨_, rfl⟩))) hx hu
            hu').get
          refine ⟨⟨?_, .some (.inr ⟨_, _, hx, hu, hu'⟩), .none, .none, .nil, .nil⟩, rfl⟩
          exact congrArg (fun name => (TypeInfo.bare
            { TypeInfo.builtin (name ++ "[]") with isArray := true, description })) hitems.name
  | @object plan plan' hplan =>
    obtain ⟨shape, hstart, -⟩ := Document.source?_object htold
    cases h with
    | @object _ base properties made _ hb hp hgenerics =>
      cases h' with
      | @object _ base' properties' made' _ hb' hp' hgenerics' =>
        rw [hplan.start] at hgenerics hstart
        have hbegin : TypeInfo.Matches (Pairs M r r') { plan'.start with properties, base }
            { plan'.start with properties := properties', base := base' } := by
          rw [hstart]
          exact ⟨rfl, .none, pairs_option hplan.base hb hb', .none, .nil,
            pairs_properties hplan.fields hp hp'⟩
        obtain ⟨hsame, hnameable⟩ := genericity_mirrored hplan.generics hgenerics hgenerics' hbegin
          fun happlied hc hu hu' => hnext (Document.mem_next_of_source? htold
            (.inr (.inr ⟨_, _, rfl, happlied⟩))) hc hu hu'
        refine ⟨⟨?_, hsame.element, hsame.base, hsame.definition, hsame.arguments,
          hsame.properties⟩, hnameable⟩
        exact congrArg (fun t : TypeInfo => { t with fullName := t.name }) hsame.bare

end Makes

/-- Made types that look alike take the same name, or both keep their own. -/
theorem titles_mirrored (hd : d.Forest)
    (hroot : ∀ name, Assoc.get? d.schemas name = some x ↔ Assoc.get? d'.schemas name = some x')
    {R : TypeId → TypeId → Prop} {made made' info info' : TypeInfo} {nameable : Bool}
    (hsame : made.Matches R made') (h : d.Titles x nameable made info)
    (h' : d'.Titles x' nameable made' info') : info.Matches R info' := by
  cases h with
  | own hn hp =>
    cases h' with
    | own hn' hp' =>
      cases hd.name_unique hn ((hroot _).2 hn')
      rw [hp] at hp'
      cases hp'
      exact ⟨congrArg (fun t : TypeInfo => t.rename _) hsame.bare, hsame.element, hsame.base,
        hsame.definition, hsame.arguments, hsame.properties⟩
    | kept hid => exact absurd ⟨_, (hroot _).1 hn⟩ (hid rfl)
  | kept hid =>
    cases h' with
    | own hn' hp' => exact absurd ⟨_, (hroot _).2 hn'⟩ (hid rfl)
    | kept hid' => exact hsame

/-! ### Types of nodes -/

/-- Faithful states of two documents that say the same, in which nothing was cut. -/
structure Twins (d d' : Document) (M : NodeId → NodeId → Prop) (r r' : Resolver) : Prop where
  alike : d.Alike d' M
  forest : d.Forest
  left : Steady d r
  right : Faithful d' r'
  ordered : r'.graph.Ordered
  uncut : r.cycles = []
  uncut' : r'.cycles = []

/-- Related nodes have types that look alike. -/
theorem Twins.lookAlike (h : Twins d d' M r r') (hM : M x x') (hx : r.Typed x t)
    (hx' : r'.Typed x' t') : LookAlike M r r' t t' := by
  have hg := h.left.types.graph
  have hg' := h.ordered
  induction h.left.sound.acc_needs h.forest h.uncut hx generalizing x' t t' with
  | intro x _ ih =>
    have hnext : ∀ {c c' u u'}, c ∈ d.next x → M c c' → r.Typed c u → r'.Typed c' u' →
        LookAlike M r r' u u' := fun hc hM hu hu' => ih _ (.inl hc) hM hu hu'
    have hsource := h.alike.source? hM
    rcases h.left.faithful.comes hx with
      ⟨source, htold, hpasses⟩ | ⟨source, made, nameable, hmade⟩
    · rcases h.right.comes hx' with
        ⟨source', htold', hpasses'⟩ | ⟨source', made', nameable', hmade'⟩
      · rw [htold, htold'] at hsource
        cases hsource with
        | some hsource =>
          cases hpasses with
          | any =>
            cases hsource
            cases hpasses'
            exact lookAlike_intrinsic hg hg' hg.any.2 hg'.any.2
          | builtin hn =>
            cases hsource
            cases hpasses' with
            | builtin hn' => exact lookAlike_intrinsic hg hg' hn hn'
          | cut hcut => exact absurd h.uncut hcut
          | schema hn =>
            cases hsource
            cases hpasses' with
            | cut hcut => exact absurd h.uncut' hcut
            | schema hn' =>
              obtain ⟨root, hroot, hu⟩ := h.left.faithful.declared hn
              obtain ⟨root', hroot', hu'⟩ := h.right.declared hn'
              obtain ⟨other', hother', hrelated⟩ := h.alike.named_left hroot
              rw [hroot'] at hother'
              cases hother'
              exact ih root (.inr ⟨_, Document.refers_of_source? htold, hroot⟩) hrelated hu hu'
          | node hc =>
            cases hsource with
            | node hrelated =>
              cases hpasses' with
              | node hc' =>
                exact hnext (Document.mem_next_of_source? htold (.inl rfl)) hrelated hc hc'
      · have hmakes' := hmade'.makes
        rw [htold, hmade'.told] at hsource
        cases hsource with
        | some hsource => cases hpasses <;> cases hsource <;> cases hmakes'
    · rcases h.right.comes hx' with
        ⟨source', htold', hpasses'⟩ | ⟨source', made', nameable', hmade'⟩
      · have hmakes := hmade.makes
        rw [hmade.told, htold'] at hsource
        cases hsource with
        | some hsource => cases hpasses' <;> cases hsource <;> cases hmakes
      · rw [hmade.told, hmade'.told] at hsource
        cases hsource with
        | some hsource =>
          obtain ⟨hsame, rfl⟩ :=
            makes_mirrored hg hg' hmade.told hsource hmade.makes hmade'.makes hnext
          obtain ⟨info, hinfo, htitles⟩ := hmade.titled
          obtain ⟨info', hinfo', htitles'⟩ := hmade'.titled
          exact ⟨info, info', hinfo, hinfo',
            titles_mirrored h.forest (h.alike.root hM) hsame htitles htitles'⟩

/-- The types of one state mirror those of the other. -/
theorem Twins.mirrors (h : Twins d d' M r r') :
    TypeGraph.Mirrors r.graph r'.graph (Pairs M r r') := by
  intro t t' hpair
  rcases hpair with ⟨name, hn, hn'⟩ | ⟨x, x', hM, hx, hx'⟩
  · exact lookAlike_intrinsic h.left.types.graph h.ordered hn hn'
  · exact h.lookAlike hM hx hx'

end Resolver

end TypedClient
