import TypedClient.Proofs.Resolution.Walk

/-! Resolving a node in two ways, step by step. What is done for a node is defined once, for every
monad that keeps a resolver and may fail. So what two monads have in common, or two runs in one of
them, comes down to the steps that resolution is made of: when it is kept by these, and by the calls
for the next nodes and for references, it is kept by the call for the node. -/

namespace TypedClient

namespace Resolver

variable {m n : Type → Type}

/-- The same place, from which to go on in another way. -/
def Site.onto (s : Site m) (child : NodeId → n TypeId) (reference : String → n TypeId) : Site n :=
  ⟨s.document, s.path, child, reference⟩

theorem sortMembers_onto (s : Site m) (child : NodeId → n TypeId) (reference : String → n TypeId)
    (members : List NodeId) :
    sortMembers (s.onto child reference) members = sortMembers s members := by
  induction members with
  | nil => rfl
  | cons member rest ih =>
    rw [sortMembers, sortMembers, ih]
    rfl

variable [Monad m] [MonadStateOf Resolver m] [MonadExceptOf Failure m]
  [Monad n] [MonadStateOf Resolver n] [MonadExceptOf Failure n]

/-- Adds a type to the graph, with the node that it was made for if it may be named. -/
def addType (t : TypeInfo) (nameable : Bool) (id : NodeId) : m TypeId := do
  let type ← insertType t
  if nameable then markNameable type id
  pure type

/-- What two ways of resolving have in common. Calls that ask for types come first, and then the
type of the node is added. Where the two are not `Exact`, what is told of a type may differ; it
decides nothing but what the new type is. -/
structure InStep (m n : Type → Type) [Monad m] [MonadStateOf Resolver m] [MonadExceptOf Failure m]
    [Monad n] [MonadStateOf Resolver n] [MonadExceptOf Failure n] where
  Exact : Prop
  Asks : {α β : Type} → (α → β → Prop) → m α → n β → Prop
  Ends : {α : Type} → m α → n α → Prop
  asks_pure : ∀ {α β : Type} {R : α → β → Prop} {a : α} {b : β}, R a b → Asks R (pure a) (pure b)
  asks_throw : ∀ {α β : Type} (R : α → β → Prop) (e : Failure), Asks R (throw e) (throw e)
  asks_bind : ∀ {α β γ δ : Type} {R : α → β → Prop} {S : γ → δ → Prop} {x : m α} {y : n β}
    {f : α → m γ} {g : β → n δ}, Asks R x y → (∀ a b, R a b → Asks S (f a) (g b)) →
    Asks S (x >>= f) (y >>= g)
  asks_intrinsic : ∀ name : String, Asks Eq (intrinsic name) (intrinsic name)
  asks_typeInfo : ∀ id : TypeId, Asks (fun t u => Exact → t = u) (typeInfo id) (typeInfo id)
  ends_asks : ∀ {α : Type} {x : m α} {y : n α}, Asks Eq x y → Ends x y
  ends_bind : ∀ {α β γ : Type} {R : α → β → Prop} {x : m α} {y : n β}
    {f : α → m γ} {g : β → n γ}, Asks R x y → (∀ a b, R a b → Ends (f a) (g b)) →
    Ends (x >>= f) (y >>= g)
  ends_add : ∀ {t u : TypeInfo} {a b : Bool} (id : NodeId), (Exact → t = u ∧ a = b) →
    Ends (addType t a id) (addType u b id)

namespace InStep

variable (P : InStep m n) {s : Site m} {child : NodeId → n TypeId} {reference : String → n TypeId}

/-- The calls for these nodes are in step. -/
def Children (s : Site m) (child : NodeId → n TypeId) (nodes : List NodeId) : Prop :=
  ∀ c ∈ nodes, P.Asks Eq (s.child c) (child c)

variable {P}

theorem Children.of_subset {nodes nodes' : List NodeId} (h : P.Children s child nodes)
    (hsub : nodes' ⊆ nodes) : P.Children s child nodes' :=
  fun c hc => h c (hsub hc)

theorem asks_unsupported {α β : Type} (R : α → β → Prop) (fault : CombinationFault) :
    P.Asks R (s.unsupported fault) ((s.onto child reference).unsupported fault) :=
  P.asks_throw R _

theorem asks_allOf {members : List NodeId} (h : P.Children s child (s.document.baseNodes members)) :
    P.Asks (fun a b => a = b ∧ a.2 = s.document.mergedShapes members) (resolveAllOf s members)
      (resolveAllOf (s.onto child reference) members) := by
  match members with
  | [] => exact P.asks_pure ⟨rfl, rfl⟩
  | [member] =>
    refine P.asks_bind (h member (List.mem_singleton.2 rfl)) fun t u htu => ?_
    exact P.asks_pure ⟨by rw [htu], rfl⟩
  | first :: second :: rest =>
    unfold resolveAllOf
    dsimp only
    rw [sortMembers_onto]
    split
    · exact asks_unsupported _ _
    · next plain hs => exact P.asks_pure ⟨rfl, (sortMembers_ok hs).2⟩
    · next base plain hs =>
      have hbase : base ∈ s.document.baseNodes (first :: second :: rest) := by
        rw [Document.baseNodes_cons_cons, ← (sortMembers_ok hs).1]
        exact List.mem_singleton.2 rfl
      refine P.asks_bind (h base hbase) fun t u htu => ?_
      exact P.asks_pure ⟨by rw [htu], (sortMembers_ok hs).2⟩
    · exact asks_unsupported _ _

theorem asks_properties {required : List String} {members : List (String × NodeId)}
    (h : P.Children s child (members.map Prod.snd)) :
    P.Asks Eq (resolveProperties s required members)
      (resolveProperties (s.onto child reference) required members) := by
  induction members with
  | nil => exact P.asks_pure rfl
  | cons member rest ih =>
    rw [resolveProperties, resolveProperties]
    apply P.asks_bind (h member.2 List.mem_cons_self)
    rintro t _ rfl
    apply P.asks_bind (ih (h.of_subset (List.subset_cons_self member.2 _)))
    rintro properties _ rfl
    exact P.asks_pure rfl

theorem asks_all {ids : List NodeId} (h : P.Children s child ids) :
    P.Asks Eq (resolveAll s ids) (resolveAll (s.onto child reference) ids) := by
  induction ids with
  | nil => exact P.asks_pure rfl
  | cons id rest ih =>
    rw [resolveAll, resolveAll]
    apply P.asks_bind (h id List.mem_cons_self)
    rintro t _ rfl
    apply P.asks_bind (ih (h.of_subset (List.subset_cons_self id rest)))
    rintro types _ rfl
    exact P.asks_pure rfl

theorem asks_definition {hints : TypeHints} {shape : ObjectShape} {t : TypeInfo}
    (h : P.Children s child (Document.definitionNodes hints)) :
    P.Asks (fun a b => P.Exact → a = b) (applyDefinition s hints shape t)
      (applyDefinition (s.onto child reference) hints shape t) := by
  unfold Document.definitionNodes at h
  unfold applyDefinition
  split
  · exact P.asks_pure fun _ => rfl
  · next hdefinition =>
    rw [if_neg hdefinition] at h
    split
    · next definition hnode =>
      rw [hnode] at h
      apply P.asks_bind (h definition (List.mem_singleton.2 rfl))
      rintro type _ rfl
      apply P.asks_bind (P.asks_typeInfo type)
      intro info info' hinfo
      exact P.asks_pure fun hexact => by rw [hinfo hexact]
    · split
      · exact P.asks_pure fun _ => rfl
      · exact P.asks_throw _ _

theorem asks_generics {hints : TypeHints} {shape : ObjectShape} {t : TypeInfo}
    (h : P.Children s child (Document.genericNodes hints shape)) :
    P.Asks (fun a b => P.Exact → a = b) (applyGenerics s hints shape t)
      (applyGenerics (s.onto child reference) hints shape t) := by
  unfold Document.genericNodes at h
  unfold applyGenerics
  split
  · next hgeneric =>
    rw [if_pos hgeneric] at h
    apply P.asks_bind (asks_definition (h.of_subset (List.subset_append_left _ _)))
    intro a b hab
    apply P.asks_bind (asks_all (h.of_subset (List.subset_append_right _ _)))
    rintro types _ rfl
    exact P.asks_pure fun hexact => by rw [hab hexact]
  · next hgeneric =>
    rw [if_neg hgeneric] at h
    split
    · exact P.asks_pure fun _ => rfl
    · next additional hadditional =>
      rw [hadditional] at h
      apply P.asks_bind (P.asks_intrinsic _)
      rintro key _ rfl
      cases additional with
      | any =>
        apply P.asks_bind (R := Eq) (P.asks_pure rfl)
        rintro value _ rfl
        exact P.asks_pure fun _ => rfl
      | schema node =>
        apply P.asks_bind (h node (List.mem_singleton.2 rfl))
        rintro value _ rfl
        exact P.asks_pure fun _ => rfl

theorem ends_object {id : NodeId} {schema : SchemaNode} {shape : ObjectShape}
    (h : P.Children s child (s.document.objectNodes schema.hints shape)) :
    P.Ends (resolveObject s id schema shape)
      (resolveObject (s.onto child reference) id schema shape) := by
  unfold Document.objectNodes at h
  have hbases := h.of_subset
    (List.Subset.trans (List.subset_append_left _ _) (List.subset_append_left _ _))
  have hmembers := h.of_subset
    (List.Subset.trans (List.subset_append_right _ _) (List.subset_append_left _ _))
  unfold resolveObject
  apply P.ends_bind (asks_allOf hbases)
  rintro ⟨base, merged⟩ _ ⟨rfl, hmerged⟩
  rw [← hmerged] at hmembers
  apply P.ends_bind (asks_properties hmembers)
  rintro properties _ rfl
  apply P.ends_bind (asks_generics (h.of_subset (List.subset_append_right _ _)))
  rintro ⟨t, nameable⟩ ⟨u, nameable'⟩ heq
  refine P.ends_add id fun hexact => ?_
  cases heq hexact
  exact ⟨rfl, rfl⟩

theorem ends_array [LawfulMonad m] [LawfulMonad n] {schema : SchemaNode} {items : Option NodeId}
    (h : P.Children s child items.toList) :
    P.Ends (resolveArray s schema items) (resolveArray (s.onto child reference) schema items) := by
  have hadd : ∀ element : TypeId, P.Ends
      (do
        let name := (← typeInfo element).name ++ "[]"
        insertType (m := m) { TypeInfo.builtin name with
          isArray := true, element := some element, description := schema.description })
      (do
        let name := (← typeInfo element).name ++ "[]"
        insertType (m := n) { TypeInfo.builtin name with
          isArray := true, element := some element, description := schema.description }) := by
    intro element
    apply P.ends_bind (P.asks_typeInfo element)
    intro info info' hinfo
    rw [← bind_pure (insertType (m := m) _), ← bind_pure (insertType (m := n) _)]
    exact P.ends_add (a := false) (b := false) 0 fun hexact => ⟨by rw [hinfo hexact], rfl⟩
  unfold resolveArray
  cases items with
  | none =>
    apply P.ends_bind (R := Eq) (P.asks_pure rfl)
    rintro element _ rfl
    exact hadd element
  | some items =>
    apply P.ends_bind (h items (List.mem_singleton.2 rfl))
    rintro element _ rfl
    exact hadd element

theorem ends_combination {id : NodeId} {schema : SchemaNode} {how : Combination}
    {members : List NodeId}
    (h : P.Children s child (s.document.combinationNodes schema.hints how members)) :
    P.Ends (resolveCombination s id schema how members)
      (resolveCombination (s.onto child reference) id schema how members) := by
  unfold Document.combinationNodes Document.sayingMembers at h
  unfold resolveCombination
  simp only [Site.node, Site.onto]
  generalize members.filter (fun m => !isNullOnly (s.document.arena.get m)) = saying at h ⊢
  rcases saying with _ | ⟨member, _ | ⟨second, rest⟩⟩
  · exact P.ends_asks (P.asks_pure rfl)
  · exact P.ends_asks (h member (List.mem_singleton.2 rfl))
  · cases how with
    | allOf => exact ends_object h
    | anyOf | oneOf => exact P.ends_asks (P.asks_throw _ _)

/-- The call for a node is in step when those for its next nodes and for references are. -/
theorem ends_kind [LawfulMonad m] [LawfulMonad n] {id : NodeId}
    (h : P.Children s child (s.document.next id))
    (href : ∀ name, s.document.Refers id name → P.Ends (s.reference name) (reference name)) :
    P.Ends (resolveKind s id) (resolveKind (s.onto child reference) id) := by
  unfold Document.next Document.kindNodes at h
  unfold Document.Refers at href
  unfold resolveKind
  simp only [Site.node, Site.onto]
  split
  · exact P.ends_asks (P.asks_pure rfl)
  · next name hk => exact href name hk
  · next shape hk =>
    rw [hk] at h
    exact ends_object h
  · next items hk =>
    rw [hk] at h
    exact ends_array h
  · exact P.ends_asks (P.asks_intrinsic _)
  · exact P.ends_add (a := true) (b := true) id fun _ => ⟨rfl, rfl⟩
  · next how members hk =>
    rw [hk] at h
    exact ends_combination h

end InStep

end Resolver

end TypedClient
