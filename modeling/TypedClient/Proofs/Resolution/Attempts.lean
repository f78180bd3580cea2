import TypedClient.Proofs.Resolution.Faithful
import TypedClient.Proofs.Resolution.InStep

/-! Calls for a node from any state, also from one in which a call that failed has left things half
done. A call fails for what the node itself combines or since a call that it makes fails, and for no
other reason; when it gives a type, the document tells where that comes from, and whether it takes
the name of the schema that the node declares. -/

namespace TypedClient

/-! ### Who takes the name of a schema -/

/-- Whether a type that is made for the node of a schema takes the name of that schema. A generic
type that applies a definition does so when the definition has a model. -/
inductive Adoption where
  | always
  | applied
  | never
  deriving DecidableEq

/-- Whether the type may be marked, or left unmarked, as one that takes the name. -/
def Adoption.Allows : Adoption → Bool → Prop
  | .always, nameable => nameable = true
  | .applied, _ => True
  | .never, nameable => nameable = false

def Genericity.adoption : Genericity → Adoption
  | .plain | .definition _ => .always
  | .applied .. => .applied
  | .keyed _ | .record _ => .never

def Source.adoption : Source → Adoption
  | .enum _ => .always
  | .object plan => plan.generics.adoption
  | _ => .never

/-- A node without a source gets no type. -/
def Document.adoption (d : Document) (id : NodeId) : Adoption :=
  ((d.source? id).map Source.adoption).getD .never

theorem Document.adoption_of_source {d : Document} {id : NodeId} {source : Source}
    (h : d.source? id = some source) : d.adoption id = source.adoption := by
  rw [adoption, h]
  rfl

namespace Resolver

variable {α β : Type} {d : Document} {I E : Resolver → Prop} {r r' : Resolver} {id : NodeId}
  {t : TypeId}

/-! ### Rules for calls -/

/-- From a state that satisfies `I` the call gives a value that satisfies `Q`, and leaves such a
state, or it fails and leaves one that satisfies `E`. -/
structure Tries (I E : Resolver → Prop) (m : Resolving α) (Q : α → Resolver → Prop) : Prop where
  gives : ∀ {r a r'}, I r → outcome m r = (.ok a, r') → I r' ∧ Q a r'
  fails : ∀ {r e r'}, I r → outcome m r = (.error e, r') → E r'

namespace Tries

variable {m : Resolving α} {f : α → Resolving β} {Q Q' : α → Resolver → Prop}
  {S : β → Resolver → Prop}

theorem pure {a : α} (h : ∀ r, I r → Q a r) : Tries I E (Pure.pure a) Q where
  gives hr ho := by
    cases ho
    exact ⟨hr, h _ hr⟩
  fails _ ho := by cases ho

theorem throw {e : Failure} (h : ∀ r, I r → E r) : Tries I E (throw e : Resolving α) Q where
  gives _ ho := by cases ho
  fails hr ho := by
    cases ho
    exact h _ hr

theorem bind (hm : Tries I E m Q) (hf : ∀ r a, I r → Q a r → Tries I E (f a) S) :
    Tries I E (m >>= f) S where
  gives hr ho := by
    obtain ⟨a, r₁, ho₁, ho₂⟩ := outcome_bind_eq_ok.1 ho
    obtain ⟨hr₁, ha⟩ := hm.gives hr ho₁
    exact (hf r₁ a hr₁ ha).gives hr₁ ho₂
  fails {r e r'} hr ho := by
    rw [outcome_bind] at ho
    rcases hrun : outcome m r with ⟨e' | a, r₁⟩
    · rw [hrun] at ho
      cases ho
      exact hm.fails hr hrun
    · rw [hrun] at ho
      obtain ⟨hr₁, ha⟩ := hm.gives hr hrun
      exact (hf r₁ a hr₁ ha).fails hr₁ ho

theorem weaken {E' : Resolver → Prop} (h : Tries I E m Q) (hpost : ∀ a r, I r → Q a r → Q' a r)
    (hfail : ∀ r, E r → E' r) : Tries I E' m Q' where
  gives hr ho := ⟨(h.gives hr ho).1, hpost _ _ (h.gives hr ho).1 (h.gives hr ho).2⟩
  fails hr ho := hfail _ (h.fails hr ho)

end Tries

/-- What holds of the state of a resolver stays so when types are added, those among them that may
take a name being marked. -/
structure Carried (d : Document) (I : Resolver → Prop) : Prop where
  bounded : ∀ {r}, I r → r.Bounded
  intrinsic : ∀ {r} (name : String), I r → I { r with graph := (r.graph.intrinsic name).2 }
  adds : ∀ {r id made nameable}, I r → (d.adoption id).Allows nameable → I (r.adds id made nameable)

theorem tries_typeInfo (id : TypeId) : Tries I E (typeInfo id) fun _ _ => True where
  gives hr ho := by
    cases ho
    exact ⟨hr, trivial⟩
  fails _ ho := by cases ho

theorem tries_intrinsic (hI : Carried d I) (name : String) :
    Tries I E (intrinsic name) fun t r => t < r.graph.size where
  gives {r a r'} hr ho := by
    cases ho
    have hr' : I { r with graph := (r.graph.intrinsic name).2 } := hI.intrinsic name hr
    exact ⟨hr', (hI.bounded hr').intrinsics (r.graph.get?_intrinsic name)⟩
  fails _ ho := by cases ho

/-- The type that was added last, marked or not. -/
theorem tries_addType (hI : Carried d I) (made : TypeInfo) {nameable : Bool}
    (h : (d.adoption id).Allows nameable) :
    Tries I E (addType made nameable id) fun t r =>
      t < r.graph.size ∧ (nameable = true → Assoc.get? r.nameable t = some id) := by
  have hrun : ∀ r : Resolver,
      outcome (addType made nameable id) r = (.ok r.graph.size, r.adds id made nameable) := by
    intro r
    cases nameable <;> rfl
  constructor
  · intro r a r' hr ho
    rw [hrun] at ho
    cases ho
    refine ⟨hI.adds hr h, ?_, ?_⟩
    · exact Nat.lt_of_lt_of_eq (Nat.lt_succ_self _) (r.graph.size_insert made).symm
    · rintro rfl
      exact Assoc.get?_put_self ..
  · intro r e r' hr ho
    rw [hrun] at ho
    cases ho

/-! ### The parts of an object -/

/-- The calls for these nodes may fail as `E` allows. -/
def TriesAll (I E : Resolver → Prop) (s : Site Resolving) (nodes : List NodeId) : Prop :=
  ∀ c ∈ nodes, Tries I E (s.child c) fun t r => t < r.graph.size

section Parts

variable {s : Site Resolving}

theorem TriesAll.of_subset {nodes nodes' : List NodeId} (h : TriesAll I E s nodes)
    (hsub : nodes' ⊆ nodes) : TriesAll I E s nodes' :=
  fun c hc => h c (hsub hc)

theorem tries_all {ids : List NodeId} (h : TriesAll I E s ids) :
    Tries I E (resolveAll s ids) fun _ _ => True := by
  induction ids with
  | nil => exact Tries.pure fun _ _ => trivial
  | cons c rest ih =>
    rw [resolveAll]
    refine (h c List.mem_cons_self).bind fun _ t _ _ => ?_
    exact (ih (h.of_subset (List.subset_cons_self c rest))).bind fun _ types _ _ =>
      Tries.pure fun _ _ => trivial

theorem tries_properties {required : List String} {members : List (String × NodeId)}
    (h : TriesAll I E s (members.map Prod.snd)) :
    Tries I E (resolveProperties s required members) fun _ _ => True := by
  induction members with
  | nil => exact Tries.pure fun _ _ => trivial
  | cons p rest ih =>
    rw [resolveProperties]
    refine (h p.2 List.mem_cons_self).bind fun _ t _ _ => ?_
    exact (ih (h.of_subset (List.subset_cons_self p.2 _))).bind fun _ properties _ _ =>
      Tries.pure fun _ _ => trivial

theorem tries_allOf {members : List NodeId} (h : TriesAll I E s (s.document.baseNodes members))
    (hnone : s.document.merging? members = none → ∀ r, I r → E r) :
    Tries I E (resolveAllOf s members) fun merging _ =>
      merging.2 = s.document.mergedShapes members ∧ (s.document.merging? members).isSome := by
  match members with
  | [] => exact Tries.pure fun _ _ => ⟨rfl, rfl⟩
  | [m] =>
    exact (h m (List.mem_singleton.2 rfl)).bind fun _ t _ _ => Tries.pure fun _ _ => ⟨rfl, rfl⟩
  | m :: n :: ms =>
    unfold Document.merging? at hnone ⊢
    unfold resolveAllOf
    dsimp only at hnone ⊢
    rw [← sortMembers_site s] at hnone ⊢
    split
    · next fault hsorted =>
      rw [hsorted] at hnone
      exact Tries.throw (hnone rfl)
    · next plain hsorted =>
      rw [hsorted]
      exact Tries.pure fun _ _ => ⟨(sortMembers_ok hsorted).2, rfl⟩
    · next base plain hsorted =>
      have hbase : base ∈ s.document.baseNodes (m :: n :: ms) := by
        rw [Document.baseNodes_cons_cons, ← (sortMembers_ok hsorted).1]
        exact List.mem_singleton.2 rfl
      rw [hsorted]
      exact (h base hbase).bind fun _ t _ _ =>
        Tries.pure fun _ _ => ⟨(sortMembers_ok hsorted).2, rfl⟩
    · next bases plain hempty hone hsorted =>
      rw [hsorted] at hnone
      refine Tries.throw (hnone ?_)
      rcases bases with _ | ⟨base, _ | ⟨second, rest⟩⟩
      · exact (hempty rfl).elim
      · exact (hone base rfl).elim
      · rfl

theorem tries_definition {hints : TypeHints} {shape : ObjectShape} {start : TypeInfo}
    (hgeneric : hints.isGenericType = true)
    (h : TriesAll I E s (Document.definitionNodes hints))
    (hnone : Document.genericity? hints shape = none → ∀ r, I r → E r) :
    Tries I E (applyDefinition s hints shape start) fun applied _ =>
      ∃ generics, Document.genericity? hints shape = some generics ∧
        generics.adoption.Allows applied.2 := by
  unfold Document.genericity? at hnone ⊢
  unfold Document.definitionNodes at h
  unfold applyDefinition
  rw [if_pos hgeneric] at hnone ⊢
  split
  · exact Tries.pure fun _ _ => ⟨_, rfl, rfl⟩
  · next hdefinition =>
    rw [if_neg hdefinition] at h hnone
    cases hnode : hints.genericTypeDefinition with
    | some definition =>
      rw [hnode] at h
      refine (h definition (List.mem_singleton.2 rfl)).bind fun _ t _ _ => ?_
      exact (tries_typeInfo t).bind fun _ info _ _ =>
        Tries.pure fun _ _ =>
          ⟨.applied definition hints.genericArguments, rfl, trivial⟩
    | none =>
      rw [hnode] at hnone
      dsimp only
      split
      · exact Tries.pure fun _ _ => ⟨.keyed hints.genericArguments, rfl, rfl⟩
      · next hadditional => exact Tries.throw (hnone (if_neg hadditional))

theorem tries_generics (hI : Carried d I) {hints : TypeHints} {shape : ObjectShape}
    {start : TypeInfo} (h : TriesAll I E s (Document.genericNodes hints shape))
    (hnone : Document.genericity? hints shape = none → ∀ r, I r → E r) :
    Tries I E (applyGenerics s hints shape start) fun applied _ =>
      ∃ generics, Document.genericity? hints shape = some generics ∧
        generics.adoption.Allows applied.2 := by
  unfold Document.genericNodes at h
  unfold applyGenerics
  split
  · next hgeneric =>
    rw [if_pos hgeneric] at h
    refine (tries_definition hgeneric (h.of_subset (List.subset_append_left _ _)) hnone).bind
      fun _ applied _ happlied => ?_
    exact (tries_all (h.of_subset (List.subset_append_right _ _))).bind fun _ types _ _ =>
      Tries.pure fun _ _ => happlied
  · next hgeneric =>
    unfold Document.genericity?
    rw [if_neg hgeneric] at h ⊢
    split
    · next hadditional =>
      rw [hadditional]
      exact Tries.pure fun _ _ => ⟨_, rfl, rfl⟩
    · next additional hadditional =>
      rw [hadditional] at h ⊢
      refine (tries_intrinsic hI _).bind fun _ key _ _ => ?_
      cases additional with
      | any =>
        refine Tries.bind (Q := fun _ _ => True) (Tries.pure fun _ _ => trivial)
          fun _ value _ _ => ?_
        exact Tries.pure fun _ _ => ⟨_, rfl, rfl⟩
      | schema c =>
        refine (h c (List.mem_singleton.2 rfl)).bind fun _ value _ _ => ?_
        exact Tries.pure fun _ _ => ⟨_, rfl, rfl⟩

end Parts

/-! ### Nodes -/

/-- What holds of the type of a node as soon as it is there. -/
structure Obtained (d : Document) (id : NodeId) (t : TypeId) (r : Resolver) : Prop where
  bound : t < r.graph.size
  source : (d.source? id).isSome
  marked : d.adoption id = .always → Assoc.get? r.nameable t = some id

/-- A type that no node takes its name for. -/
theorem Obtained.of_never {source : Source} (hsource : d.source? id = some source)
    (hnever : source.adoption = .never) (h : t < r.graph.size) : Obtained d id t r where
  bound := h
  source := by
    rw [hsource]
    rfl
  marked halways := by
    rw [Document.adoption_of_source hsource, hnever] at halways
    cases halways

theorem tries_addType_of_source (hI : Carried d I) (made : TypeInfo) {nameable : Bool}
    {source : Source} (hsource : d.source? id = some source)
    (h : source.adoption.Allows nameable) :
    Tries I E (addType made nameable id) (Obtained d id) := by
  have hadoption := Document.adoption_of_source hsource
  refine (tries_addType hI made (by rw [hadoption]; exact h)).weaken (fun t r _ ht =>
    ⟨ht.1, by rw [hsource]; rfl, fun halways => ht.2 ?_⟩) fun _ h => h
  rw [hadoption] at halways
  rw [halways] at h
  exact h

section Nodes

variable {s : Site Resolving}

theorem tries_object (hI : Carried s.document I) {schema : SchemaNode} {shape : ObjectShape}
    (hsource : s.document.source? id = (s.document.plan? schema shape).map .object)
    (h : TriesAll I E s (s.document.objectNodes schema.hints shape))
    (hnone : s.document.source? id = none → ∀ r, I r → E r) :
    Tries I E (resolveObject s id schema shape) (Obtained s.document id) := by
  have hbases : s.document.baseNodes shape.allOf ⊆ s.document.objectNodes schema.hints shape :=
    List.Subset.trans (List.subset_append_left _ _) (List.subset_append_left _ _)
  have hmembers : Assoc.values (mergeProperties (s.document.mergedShapes shape.allOf ++
      [shape])) ⊆ s.document.objectNodes schema.hints shape :=
    List.Subset.trans (List.subset_append_right _ _) (List.subset_append_left _ _)
  rw [hsource] at hnone
  unfold Document.plan? at hsource hnone
  unfold resolveObject
  refine (tries_allOf (h.of_subset hbases) fun hm => hnone (by rw [hm]; rfl)).bind
    fun _ merging _ hmerging => ?_
  obtain ⟨base, merged⟩ := merging
  obtain ⟨rfl, hsome⟩ := hmerging
  obtain ⟨⟨node, shapes⟩, hm⟩ := Option.isSome_iff_exists.1 hsome
  rw [hm] at hsource hnone
  refine (tries_properties (h.of_subset hmembers)).bind fun _ properties _ _ => ?_
  refine (tries_generics hI (h.of_subset (List.subset_append_right _ _)) fun hg =>
    hnone (by rw [hg]; rfl)).bind fun _ applied _ happlied => ?_
  obtain ⟨made, nameable⟩ := applied
  obtain ⟨generics, hg, hallows⟩ := happlied
  rw [hg] at hsource
  exact tries_addType_of_source hI _ hsource hallows

theorem tries_array (hI : Carried d I) {schema : SchemaNode} {items : Option NodeId}
    {description : Option String} (hsource : d.source? id = some (.array items description))
    (h : TriesAll I E s items.toList) :
    Tries I E (resolveArray s schema items) (Obtained d id) := by
  unfold resolveArray
  refine Tries.bind (Q := fun _ _ => True) ?_ fun _ element _ _ => ?_
  · cases items with
    | none => exact Tries.pure fun _ _ => trivial
    | some c => exact (h c (List.mem_singleton.2 rfl)).weaken (fun _ _ _ _ => trivial) fun _ h => h
  · refine (tries_typeInfo element).bind fun _ info _ _ => ?_
    rw [← bind_pure (insertType _)]
    show Tries I E (addType _ false id) _
    exact tries_addType_of_source hI _ hsource rfl

theorem tries_combination (hI : Carried s.document I) {schema : SchemaNode} {how : Combination}
    {members : List NodeId}
    (hsource : s.document.source? id = match s.document.sayingMembers members, how with
      | [], _ => some .any
      | [m], _ => some (.node m)
      | members, .allOf => (s.document.plan? schema { allOf := members }).map .object
      | _, _ => none)
    (h : TriesAll I E s (s.document.combinationNodes schema.hints how members))
    (hnone : s.document.source? id = none → ∀ r, I r → E r) :
    Tries I E (resolveCombination s id schema how members) (Obtained s.document id) := by
  unfold Document.combinationNodes at h
  unfold resolveCombination
  unfold Document.sayingMembers at h hsource
  simp only [Site.node]
  generalize members.filter (fun m => !isNullOnly (s.document.arena.get m)) = saying at h hsource ⊢
  rcases saying with _ | ⟨m, _ | ⟨n, ms⟩⟩
  · exact Tries.pure fun r hr => .of_never hsource rfl (hI.bounded hr).any
  · exact (h m (List.mem_singleton.2 rfl)).weaken (fun t r _ ht => .of_never hsource rfl ht)
      fun _ h => h
  · cases how with
    | allOf => exact tries_object hI hsource h hnone
    | anyOf | oneOf => exact Tries.throw (hnone hsource)

/-- The call for a node fails when the node has no source or a call that it makes fails, and only
then. -/
theorem tries_kind (hI : Carried s.document I) (h : TriesAll I E s (s.document.next id))
    (href : ∀ name, s.document.Refers id name →
      Tries I E (s.reference name) fun t r => t < r.graph.size)
    (hnone : s.document.source? id = none → ∀ r, I r → E r) :
    Tries I E (resolveKind s id) (Obtained s.document id) := by
  -- the source is read off the kind of the node below, as the call is
  have hsource := Eq.refl (s.document.source? id)
  conv_rhs at hsource => unfold Document.source?
  dsimp only at hsource
  unfold Document.next Document.kindNodes at h
  unfold Document.Refers at href
  unfold resolveKind
  simp only [Site.node]
  generalize (s.document.arena.get id) = schema at *
  obtain ⟨kind, description, nullable, hints⟩ := schema
  cases kind with
  | empty => exact Tries.pure fun r hr => .of_never hsource rfl (hI.bounded hr).any
  | reference name =>
    exact (href name rfl).weaken (fun t r _ ht => .of_never hsource rfl ht) fun _ h => h
  | object shape => exact tries_object hI hsource h hnone
  | array items => exact tries_array hI hsource h
  | primitive primitive format =>
    exact (tries_intrinsic hI _).weaken (fun t r _ ht => .of_never hsource rfl ht) fun _ h => h
  | enum primitive literals =>
    show Tries I E (addType _ true id) _
    exact tries_addType_of_source hI _ hsource rfl
  | combination how members => exact tries_combination hI hsource h hnone

end Nodes

end Resolver

end TypedClient
