import TypedClient.Proofs.Alike
import TypedClient.Proofs.Model.Entries
import TypedClient.Proofs.Resolution.Finished
import TypedClient.Proofs.TypeName.Readable

/-! The types that a faithful state holds for nodes, and those that these refer to. A type that is
not built in has taken the name of the schema that it was made for, under which it is registered, or
it is an instance of a generic definition, written in place, that has the name of its definition. So
every type that is a model of its own is registered. Its marks go with its shape: arrays are built
in, and only what is generic has arguments. -/

namespace TypedClient

/-! ### What a document says of a type itself -/

/-- Whether the object itself says that it is generic. -/
def Genericity.isMarked : Genericity → Bool
  | .plain | .record _ => false
  | .definition _ | .applied .. | .keyed _ => true

namespace Document

variable {d : Document} {id : NodeId}

theorem plan?_eq_some {schema : SchemaNode} {shape : ObjectShape} {plan : Plan}
    (h : d.plan? schema shape = some plan) :
    plan.start = objectType schema ∧ genericity? schema.hints shape = some plan.generics := by
  unfold plan? at h
  split at h
  · next hg =>
    cases h
    exact ⟨rfl, hg⟩
  · cases h

theorem source?_object {plan : Plan} (h : d.source? id = some (.object plan)) :
    ∃ shape, plan.start = objectType (d.arena.get id) ∧
      genericity? (d.arena.get id).hints shape = some plan.generics := by
  unfold source? at h
  dsimp only at h
  split at h
  · cases h
  · cases h
  · next shape _ =>
    obtain ⟨_, hplan, heq⟩ := Option.map_eq_some_iff.1 h
    cases heq
    exact ⟨shape, plan?_eq_some hplan⟩
  · cases h
  · cases h
  · cases h
  · split at h
    · cases h
    · cases h
    · obtain ⟨_, hplan, heq⟩ := Option.map_eq_some_iff.1 h
      cases heq
      exact ⟨_, plan?_eq_some hplan⟩
    · cases h

theorem source?_enum {t : TypeInfo} (h : d.source? id = some (.enum t)) :
    ∃ primitive literals, t = enumType (d.arena.get id) primitive literals := by
  unfold source? at h
  dsimp only at h
  split at h
  · cases h
  · cases h
  · obtain ⟨_, -, heq⟩ := Option.map_eq_some_iff.1 h
    cases heq
  · cases h
  · cases h
  · next primitive literals _ =>
    cases h
    exact ⟨primitive, literals, rfl⟩
  · split at h
    · cases h
    · cases h
    · obtain ⟨_, -, heq⟩ := Option.map_eq_some_iff.1 h
      cases heq
    · cases h

theorem refers_of_source? {name : String} (h : d.source? id = some (.schema name)) :
    d.Refers id name := by
  unfold source? at h
  unfold Refers
  dsimp only at h
  split at h
  · cases h
  · next other hk =>
    cases h
    exact hk
  · obtain ⟨_, -, heq⟩ := Option.map_eq_some_iff.1 h
    cases heq
  · cases h
  · cases h
  · cases h
  · split at h
    · cases h
    · cases h
    · obtain ⟨_, -, heq⟩ := Option.map_eq_some_iff.1 h
      cases heq
    · cases h

/-- The nodes that a source is made from are resolved before. -/
theorem mem_next_of_source? {c : NodeId} {source : Source} (h : d.source? id = some source)
    (hc : source = .node c ∨ (∃ description, source = .array (some c) description) ∨
      ∃ plan arguments, source = .object plan ∧ plan.generics = .applied c arguments) :
    c ∈ d.next id := by
  -- an instance of a definition names the definition among the nodes of its generics
  have happlied : ∀ {shape plan arguments}, d.plan? (d.arena.get id) shape = some plan →
      plan.generics = .applied c arguments → c ∈ d.objectNodes (d.arena.get id).hints shape := by
    intro shape plan arguments hplan hgenerics
    have hg := (plan?_eq_some hplan).2
    rw [hgenerics] at hg
    refine List.mem_append_right _ ?_
    unfold genericity? at hg
    unfold genericNodes definitionNodes
    split at hg
    · next hgeneric =>
      rw [if_pos hgeneric]
      split at hg
      · cases hg
      · next hdefinition =>
        rw [if_neg hdefinition]
        split at hg
        · next node hnode =>
          cases hg
          rw [hnode]
          exact List.mem_append_left _ (List.mem_singleton.2 rfl)
        · split at hg <;> cases hg
    · split at hg <;> cases hg
  unfold source? at h
  unfold next kindNodes
  dsimp only at h
  generalize (d.arena.get id).kind = kind at h
  cases kind with
  | object shape =>
    obtain ⟨plan, hplan, rfl⟩ := Option.map_eq_some_iff.1 h
    rcases hc with hc | ⟨_, hc⟩ | ⟨_, arguments, hc, hgenerics⟩
    · cases hc
    · cases hc
    · cases hc
      exact happlied hplan hgenerics
  | array items =>
    cases h
    rcases hc with hc | ⟨_, hc⟩ | ⟨_, _, hc, -⟩
    · cases hc
    · cases hc
      exact List.mem_singleton.2 rfl
    · cases hc
  | combination how members =>
    dsimp only at h ⊢
    unfold combinationNodes
    generalize d.sayingMembers members = saying at h
    rcases saying with _ | ⟨m, _ | ⟨n, ms⟩⟩
    · cases h
      rcases hc with hc | ⟨_, hc⟩ | ⟨_, _, hc, -⟩ <;> cases hc
    · cases h
      rcases hc with hc | ⟨_, hc⟩ | ⟨_, _, hc, -⟩
      · cases hc
        exact List.mem_singleton.2 rfl
      · cases hc
      · cases hc
    · cases how with
      | allOf =>
        obtain ⟨plan, hplan, rfl⟩ := Option.map_eq_some_iff.1 h
        rcases hc with hc | ⟨_, hc⟩ | ⟨_, arguments, hc, hgenerics⟩
        · cases hc
        · cases hc
        · cases hc
          exact happlied hplan hgenerics
      | anyOf | oneOf => cases h
  | empty | reference | enum | primitive =>
    cases h
    rcases hc with hc | ⟨_, hc⟩ | ⟨_, _, hc, -⟩ <;> cases hc

/-- Only what is generic has generics, and a definition is one that says so. -/
theorem genericity?_cases {hints : TypeHints} {shape : ObjectShape} {generics : Genericity}
    (h : genericity? hints shape = some generics) :
    (generics = .plain → hints.isGenericType = false) ∧
    (∀ arguments, generics = .definition arguments → hints.isGenericTypeDefinition = true) ∧
    ∀ definition arguments, generics = .applied definition arguments →
      hints.isGenericType = true ∧ hints.isGenericTypeDefinition = false := by
  unfold genericity? at h
  split at h
  · next hgeneric =>
    split at h
    · next hdefinition =>
      cases h
      exact ⟨nofun, fun _ _ => hdefinition, nofun⟩
    · next hdefinition =>
      rw [Bool.not_eq_true] at hdefinition
      split at h
      · cases h
        exact ⟨nofun, nofun, fun _ _ _ => ⟨hgeneric, hdefinition⟩⟩
      · split at h
        · cases h
          exact ⟨nofun, nofun, nofun⟩
        · cases h
  · next hgeneric =>
    rw [Bool.not_eq_true] at hgeneric
    split at h
    · cases h
      exact ⟨fun _ => hgeneric, nofun, nofun⟩
    · cases h
      exact ⟨nofun, nofun, nofun⟩
    · cases h
      exact ⟨nofun, nofun, nofun⟩

/-- An object says that it is generic unless it is plain or a record by its values. -/
theorem isMarked_of_genericity? {hints : TypeHints} {shape : ObjectShape} {generics : Genericity}
    (h : genericity? hints shape = some generics) : hints.isGenericType = generics.isMarked := by
  unfold genericity? at h
  split at h
  · next hgeneric =>
    rw [hgeneric]
    split at h
    · cases h
      rfl
    · split at h
      · cases h
        rfl
      · split at h
        · cases h
          rfl
        · cases h
  · next hplain =>
    rw [Bool.eq_false_iff.2 hplain]
    split at h <;> cases h <;> rfl

end Document

namespace Resolver

open Relation

variable {d : Document} {r : Resolver} {id : NodeId} {source : Source} {made : TypeInfo}
  {nameable : Bool} {t u : TypeId}

/-! ### References of made types -/

/-- What generics add to the references of an object. -/
theorem rooted_of_genericity (hf : Faithful d r) {generics : Genericity} {start : TypeInfo}
    (h : generics.Makes r start made nameable) (hstart : ∀ u ∈ start.references, Rooted d r u) :
    ∀ u ∈ made.references, Rooted d r u := by
  have harguments : ∀ {arguments types}, List.Forall₂ r.Typed arguments types →
      ∀ u ∈ types, Rooted d r u := by
    intro arguments types ha u hu
    obtain ⟨c, -, hc⟩ := exists_of_mem_right ha hu
    exact hf.rooted hc
  intro u hu
  cases h with
  | plain => exact hstart u hu
  | @definition _ types ha =>
    rcases List.mem_append.1 (references_withArguments start types hu) with hu | hu
    · exact hstart u hu
    · exact harguments ha u hu
  | @applied _ _ v types hd ha =>
    rcases List.mem_append.1 (references_withArguments { start with
        name := (r.graph.get v).name, isBuiltin := (r.graph.get v).isBuiltin
        genericDefinition := some v } types hu) with hu | hu
    · rcases List.mem_append.1 (references_withDefinition start _ _ v hu) with hu | hu
      · exact hstart u hu
      · rw [List.mem_singleton.1 hu]
        exact hf.rooted hd
    · exact harguments ha u hu
  | @keyed _ types ha =>
    rcases List.mem_append.1 (references_withArguments start types hu) with hu | hu
    · exact hstart u hu
    · exact harguments ha u hu
  | @openRecord key hk =>
    rcases List.mem_append.1 (references_withArguments start [key, key] hu) with hu | hu
    · exact hstart u hu
    · have hkey : u = key := by simpa using hu
      exact .inr (.inl ⟨_, hkey ▸ hk⟩)
  | @record _ key v hk hv =>
    rcases List.mem_append.1 (references_withArguments start [key, v] hu) with hu | hu
    · exact hstart u hu
    · rcases List.mem_cons.1 hu with rfl | hu
      · exact .inr (.inl ⟨_, hk⟩)
      · rw [List.mem_singleton.1 hu]
        exact hf.rooted hv

theorem rooted_of_makes (hf : Faithful d r) (htold : d.source? id = some source)
    (h : source.Makes r made nameable) : ∀ u ∈ made.references, Rooted d r u := by
  cases h with
  | openArray =>
    intro u hu
    have hany : u ∈ [TypeGraph.any] := hu
    exact .inl (List.mem_singleton.1 hany)
  | @array _ _ v hv =>
    intro u hu
    have hitems : u ∈ [v] := hu
    rw [List.mem_singleton.1 hitems]
    exact hf.rooted hv
  | enum =>
    obtain ⟨primitive, literals, rfl⟩ := Document.source?_enum htold
    exact fun u hu => absurd hu List.not_mem_nil
  | @object plan base properties made _ hb hp hg =>
    obtain ⟨shape, hstart, -⟩ := Document.source?_object htold
    show ∀ u ∈ made.references, Rooted d r u
    refine rooted_of_genericity hf hg fun u hu => ?_
    rw [hstart] at hu
    have hparts : u ∈ base.toList ++ properties.map fun p => p.2.type := by
      simpa [TypeInfo.references, Document.objectType, TypeInfo.builtin, TypeInfo.named] using hu
    rcases List.mem_append.1 hparts with hu | hu
    · generalize plan.base = node at hb
      cases hb with
      | none => exact absurd hu List.not_mem_nil
      | some hv =>
        rw [List.mem_singleton.1 hu]
        exact hf.rooted hv
    · obtain ⟨p, hmem, rfl⟩ := List.mem_map.1 hu
      obtain ⟨f, -, v, hv, rfl⟩ := exists_of_mem_right hp hmem
      exact hf.rooted hv

theorem references_of_titles {info : TypeInfo} (h : d.Titles id nameable made info) :
    info.references = made.references := by
  cases h <;> rfl

/-- What a type of a node refers to are types of nodes, or looked up by name, again. -/
theorem Rooted.refers (hf : Faithful d r) (hg : r.graph.Ordered) (h : Rooted d r t)
    (hu : r.graph.Refers t u) : Rooted d r u := by
  unfold TypeGraph.Refers at hu
  rcases h with rfl | ⟨name, hn⟩ | ⟨id, source, made, nameable, -, hmade⟩
  · rw [TypeGraph.get_of_get? hg.any.1] at hu
    exact absurd hu List.not_mem_nil
  · rw [TypeGraph.get_of_get? (hg.intrinsic hn)] at hu
    exact absurd hu List.not_mem_nil
  · obtain ⟨info, hinfo, htitles⟩ := hmade.titled
    rw [TypeGraph.get_of_get? hinfo, references_of_titles htitles] at hu
    exact rooted_of_makes hf hmade.told hmade.makes u hu

theorem Rooted.reaches (hf : Faithful d r) (hg : r.graph.Ordered) (h : Rooted d r t)
    (hu : TransGen r.graph.Refers t u) : Rooted d r u := by
  induction hu with
  | single hu => exact h.refers hf hg hu
  | tail _ hu ih => exact ih.refers hf hg hu

/-! ### Types that are not built in -/

/-- An instance of a generic definition: of an object that is generic without being a definition,
which takes name and standing of the definition. -/
structure Applies (r : Resolver) (made : TypeInfo) (v : TypeId) : Prop where
  generic : made.isGeneric = true
  instance' : made.isGenericDefinition = false
  definition : made.genericDefinition = some v
  isBuiltin : made.isBuiltin = (r.graph.get v).isBuiltin
  name : made.name = (r.graph.get v).name
  scope : made.scope = ""

/-- What is made is built in, and not an instance if it may take a name; or it is an instance. -/
theorem makes_cases (hf : Faithful d r) (htold : d.source? id = some source)
    (h : source.Makes r made nameable) :
    (made.isBuiltin = true ∧
      (nameable = true → made.isGeneric = false ∨ made.isGenericDefinition = true)) ∨
    ∃ v, Rooted d r v ∧ Applies r made v ∧ nameable = !made.isBuiltin := by
  cases h with
  | openArray => exact .inl ⟨rfl, fun _ => .inl rfl⟩
  | array h => exact .inl ⟨rfl, fun _ => .inl rfl⟩
  | enum =>
    obtain ⟨primitive, literals, rfl⟩ := Document.source?_enum htold
    exact .inl ⟨rfl, fun _ => .inl rfl⟩
  | @object plan base properties made _ hb hp hg =>
    obtain ⟨shape, hstart, hgenerics⟩ := Document.source?_object htold
    obtain ⟨hplain, hdefinition, happlied⟩ := Document.genericity?_cases hgenerics
    clear hgenerics
    generalize plan.generics = generics at hg hplain hdefinition happlied
    rw [hstart] at hg
    cases hg with
    | plain => exact .inl ⟨rfl, fun _ => .inl (hplain rfl)⟩
    | definition ha => exact .inl ⟨rfl, fun _ => .inr (hdefinition _ rfl)⟩
    | applied hd ha =>
      obtain ⟨hgeneric, hinstance⟩ := happlied _ _ rfl
      exact .inr ⟨_, hf.rooted hd, ⟨hgeneric, hinstance, rfl, rfl, rfl, rfl⟩, rfl⟩
    | keyed ha => exact .inl ⟨rfl, fun h => by cases h⟩
    | openRecord hk => exact .inl ⟨rfl, fun h => by cases h⟩
    | record hk hv => exact .inl ⟨rfl, fun h => by cases h⟩

/-- The type is registered under its own name. -/
def OwnName (r : Resolver) (u : TypeId) : Prop :=
  ∃ name parsed, Assoc.get? r.registry name = some u ∧ TypeName.parse name = .ok parsed ∧
    (r.graph.get u).name = parsed.name ∧ (r.graph.get u).scope = parsed.scope ∧
    (r.graph.get u).fullName = name

/-- What takes the name of a schema is registered under it. -/
theorem ownName_of_rename (hf : Faithful d r) (htyped : r.Typed id u) {name : String}
    {parsed : TypeName} (hn : Assoc.get? d.schemas name = some id)
    (hp : TypeName.parse name = .ok parsed) (hget : r.graph.get u = made.rename parsed) :
    OwnName r u := by
  refine ⟨name, parsed, hf.registered hn htyped, hp, ?_⟩
  rw [hget]
  exact ⟨rfl, rfl, (TypeName.parts_of_parse hp).2.2⟩

/-- An instance of a definition that is not built in: registered under its own name, or written in
place, with the bare name of the definition. -/
def Instance (d : Document) (r : Resolver) (u v : TypeId) : Prop :=
  Rooted d r v ∧ (r.graph.get v).isBuiltin = false ∧ (r.graph.get u).isGeneric = true ∧
    (r.graph.get u).isGenericDefinition = false ∧
    (r.graph.get u).genericDefinition = some v ∧
    (OwnName r u ∨ ((r.graph.get u).scope = "" ∧ (r.graph.get u).name = (r.graph.get v).name))

/-- A type that is not built in and no parameter is a model under its own name, or an instance. -/
theorem model_or_instance (hf : Faithful d r) (hg : r.graph.Ordered) (h : Rooted d r u)
    (hc : r.graph.Counts u) :
    (OwnName r u ∧ (r.graph.get u).isModel = true) ∨ ∃ v, Instance d r u v := by
  obtain ⟨hbuiltin, hparameter⟩ := hc
  rcases h with rfl | ⟨name, hn⟩ | ⟨id, source, made, nameable, htyped, hmade⟩
  · rw [TypeGraph.get_of_get? hg.any.1] at hbuiltin
    cases hbuiltin
  · rw [TypeGraph.get_of_get? (hg.intrinsic hn)] at hbuiltin
    cases hbuiltin
  · obtain ⟨info, hinfo, htitles⟩ := hmade.titled
    have hget := TypeGraph.get_of_get? hinfo
    have hcases := makes_cases hf hmade.told hmade.makes
    cases htitles with
    | @own name parsed _ hn hp =>
      have hown := ownName_of_rename hf htyped hn hp hget
      rcases hcases with ⟨-, hgeneric⟩ | ⟨v, hv, happlies, hnameable⟩
      · refine .inl ⟨hown, ?_⟩
        rw [hget] at hparameter ⊢
        have hfamily := hgeneric rfl
        simp only [TypeInfo.rename] at hparameter
        simp only [TypeInfo.isModel, TypeInfo.rename, hparameter]
        rcases hfamily with hfamily | hfamily <;> simp [hfamily]
      · have hfalse : made.isBuiltin = false := by simpa using hnameable.symm
        refine .inr ⟨v, hv, happlies.isBuiltin ▸ hfalse, ?_⟩
        rw [hget]
        exact ⟨happlies.generic, happlies.instance', happlies.definition, .inl hown⟩
    | kept hid =>
      rw [hget] at hbuiltin
      rcases hcases with ⟨htrue, -⟩ | ⟨v, hv, happlies, -⟩
      · rw [htrue] at hbuiltin
        cases hbuiltin
      · refine .inr ⟨v, hv, happlies.isBuiltin ▸ hbuiltin, ?_⟩
        rw [hget]
        exact ⟨happlies.generic, happlies.instance', happlies.definition,
          .inr ⟨happlies.scope, happlies.name⟩⟩

/-- A model has the name that it is registered under. -/
theorem ownName_of_isModel (hf : Faithful d r) (hg : r.graph.Ordered) (h : Rooted d r u)
    (hmodel : (r.graph.get u).isModel = true) : OwnName r u := by
  simp only [TypeInfo.isModel, Bool.and_eq_true, Bool.or_eq_true, Bool.not_eq_true'] at hmodel
  obtain ⟨⟨hbuiltin, hparameter⟩, hshown⟩ := hmodel
  rcases model_or_instance hf hg h ⟨hbuiltin, hparameter⟩ with
    ⟨hown, -⟩ | ⟨v, -, -, hgeneric, hinstance, -⟩
  · exact hown
  · rcases hshown with hplain | hdefinition
    · exact absurd (hgeneric.symm.trans hplain) (by decide)
    · exact absurd (hdefinition.symm.trans hinstance) (by decide)

/-! ### Shapes -/

/-- How the marks of a type go with what it refers to: an array is built in and has no arguments,
only what is generic has arguments, and only an instance has a definition. -/
structure Shaped (t : TypeInfo) : Prop where
  array : t.isArray = true → t.isBuiltin = true ∧ t.genericArguments = []
  arguments : t.genericArguments ≠ [] → t.isGeneric = true
  definition : t.genericDefinition ≠ none → t.isGeneric = true ∧ t.isGenericDefinition = false

/-- A type that is no array, has no definition and, unless it is generic, no arguments. -/
theorem shaped_of_plain {t : TypeInfo} (ha : t.isArray = false) (hd : t.genericDefinition = none)
    (hg : t.isGeneric = true ∨ t.genericArguments = []) : Shaped t where
  array h := absurd (ha.symm.trans h) Bool.false_ne_true
  arguments h := hg.resolve_right h
  definition h := absurd hd h

/-- What is made has such a shape, and it is no array if it may take a name. -/
theorem shaped_of_makes (htold : d.source? id = some source)
    (h : source.Makes r made nameable) :
    Shaped made ∧ (nameable = true → made.isArray = false) := by
  cases h with
  | openArray => exact ⟨⟨fun _ => ⟨rfl, rfl⟩, fun h => absurd rfl h, fun h => absurd rfl h⟩, nofun⟩
  | array => exact ⟨⟨fun _ => ⟨rfl, rfl⟩, fun h => absurd rfl h, fun h => absurd rfl h⟩, nofun⟩
  | enum =>
    obtain ⟨primitive, literals, rfl⟩ := Document.source?_enum htold
    exact ⟨shaped_of_plain rfl rfl (.inr rfl), fun _ => rfl⟩
  | @object plan base properties made _ hb hp hg =>
    obtain ⟨shape, hstart, hgenerics⟩ := Document.source?_object htold
    have hmarked := Document.isMarked_of_genericity? hgenerics
    obtain ⟨-, -, happlied⟩ := Document.genericity?_cases hgenerics
    clear hgenerics
    generalize plan.generics = generics at hg hmarked happlied
    rw [hstart] at hg
    cases hg with
    | plain => exact ⟨shaped_of_plain rfl rfl (.inr rfl), fun _ => rfl⟩
    | definition ha => exact ⟨shaped_of_plain rfl rfl (.inl hmarked), fun _ => rfl⟩
    | applied hd ha =>
      exact ⟨⟨nofun, fun _ => hmarked, fun _ => happlied _ _ rfl⟩, fun _ => rfl⟩
    | keyed ha => exact ⟨shaped_of_plain rfl rfl (.inl hmarked), fun _ => rfl⟩
    | openRecord hk => exact ⟨shaped_of_plain rfl rfl (.inl rfl), fun _ => rfl⟩
    | record hk hv => exact ⟨shaped_of_plain rfl rfl (.inl rfl), fun _ => rfl⟩

/-- So has every type that a node has. -/
theorem Rooted.shaped (hg : r.graph.Ordered) (h : Rooted d r t) : Shaped (r.graph.get t) := by
  rcases h with rfl | ⟨name, hn⟩ | ⟨id, source, made, nameable, -, hmade⟩
  · rw [TypeGraph.get_of_get? hg.any.1]
    exact shaped_of_plain rfl rfl (.inr rfl)
  · rw [TypeGraph.get_of_get? (hg.intrinsic hn)]
    exact shaped_of_plain rfl rfl (.inr rfl)
  · obtain ⟨info, hinfo, htitles⟩ := hmade.titled
    obtain ⟨hshaped, harray⟩ := shaped_of_makes hmade.told hmade.makes
    rw [TypeGraph.get_of_get? hinfo]
    cases htitles with
    | own =>
      exact ⟨fun h => absurd ((harray rfl).symm.trans h) Bool.false_ne_true, hshaped.arguments,
        hshaped.definition⟩
    | kept => exact hshaped

end Resolver

end TypedClient
