import TypedClient.Proofs.Client.Conservation
import TypedClient.Proofs.Document.Trees

/-! What a client asks of a resolver: the types of nodes of its operations, one call after the
other, and nothing else. A client is made if and only if all of these calls give a type, and what it
leaves behind is what they leave behind. -/

namespace TypedClient

/-- Calls for nodes, one after the other, all of which give a type. -/
inductive Resolver.Asks (d : Document) : List NodeId → Resolver → Resolver → Prop
  | nil {r : Resolver} : Asks d [] r r
  | cons {id : NodeId} {ids : List NodeId} {t : TypeId} {r r' r'' : Resolver}
      (h : outcome (Resolver.node d id) r = (.ok t, r')) (hrest : Asks d ids r' r'') :
      Asks d (id :: ids) r r''

namespace Resolver

variable {d : Document} {ids ids' : List NodeId} {r r' r'' : Resolver}

theorem asks_nil : Asks d [] r r' ↔ r' = r := by
  constructor
  · rintro ⟨⟩
    rfl
  · rintro rfl
    exact .nil

theorem asks_append :
    Asks d (ids ++ ids') r r'' ↔ ∃ r', Asks d ids r r' ∧ Asks d ids' r' r'' := by
  induction ids generalizing r with
  | nil =>
    constructor
    · exact fun h => ⟨r, .nil, h⟩
    · rintro ⟨r', h, h'⟩
      rwa [asks_nil.1 h] at h'
  | cons id ids ih =>
    constructor
    · rintro (_ | ⟨h, hrest⟩)
      obtain ⟨r', hids, hids'⟩ := ih.1 hrest
      exact ⟨r', .cons h hids, hids'⟩
    · rintro ⟨r', _ | ⟨h, hrest⟩, hids'⟩
      exact .cons h (ih.2 ⟨r', hrest, hids'⟩)

end Resolver

namespace Client

open Resolver

variable {α β : Type} {d : Document} {ids ids' : List NodeId}

/-- A computation gives a value if and only if these calls do, and leaves what they leave. -/
def Performs (d : Document) (m : Resolving α) (ids : List NodeId) : Prop :=
  ∀ r r', (∃ a, outcome m r = (.ok a, r')) ↔ Asks d ids r r'

namespace Performs

theorem pure (a : α) : Performs d (pure a) [] := by
  intro r r'
  rw [asks_nil]
  constructor
  · rintro ⟨a, h⟩
    cases h
    rfl
  · rintro rfl
    exact ⟨a, rfl⟩

theorem get : Performs d get [] := by
  intro r r'
  rw [asks_nil]
  constructor
  · rintro ⟨a, h⟩
    cases h
    rfl
  · rintro rfl
    exact ⟨r', rfl⟩

theorem node (id : NodeId) : Performs d (node d id) [id] := by
  intro r r'
  constructor
  · rintro ⟨t, h⟩
    exact .cons h .nil
  · rintro (_ | ⟨h, hrest⟩)
    cases hrest
    exact ⟨_, h⟩

theorem bind {m : Resolving α} {f : α → Resolving β} (hm : Performs d m ids)
    (hf : ∀ a, Performs d (f a) ids') : Performs d (m >>= f) (ids ++ ids') := by
  intro r r''
  rw [asks_append]
  constructor
  · rintro ⟨b, h⟩
    obtain ⟨a, r', ha, hb⟩ := outcome_bind_eq_ok.1 h
    exact ⟨r', (hm r r').1 ⟨a, ha⟩, (hf a r' r'').1 ⟨b, hb⟩⟩
  · rintro ⟨r', hids, hids'⟩
    obtain ⟨a, ha⟩ := (hm r r').2 hids
    obtain ⟨b, hb⟩ := (hf a r' r'').2 hids'
    exact ⟨b, outcome_bind_eq_ok.2 ⟨a, r', ha, hb⟩⟩

/-- What follows asks for nothing. -/
theorem then_pure {m : Resolving α} {f : α → Resolving β} (hm : Performs d m ids)
    (hf : ∀ a, Performs d (f a) []) : Performs d (m >>= f) ids := by
  have h := hm.bind hf
  rwa [List.append_nil] at h

theorem mapM {f : α → Resolving β} {nodes : α → List NodeId}
    (hf : ∀ a, Performs d (f a) (nodes a)) (xs : List α) :
    Performs d (xs.mapM f) (xs.flatMap nodes) := by
  induction xs with
  | nil => exact pure []
  | cons x xs ih =>
    rw [List.mapM_cons, List.flatMap_cons]
    exact (hf x).bind fun b => ih.then_pure fun bs => pure _

end Performs

/-! ### Nodes of an operation -/

def requestNode? [MediaType.Reading] (b : Option Body) : Option NodeId :=
  b.bind fun b => (contentOf? b .json).or (contentOf? b .form)

def responseNode? [MediaType.Reading] (b : Option Body) : Option NodeId :=
  b.bind fun b =>
    if hasContent b .binary then none else (contentOf? b .json).or (contentOf? b .anything)

def parameterNodes (o : Operation) (places : List ParameterPlace) : List NodeId :=
  (o.parameters.filter fun p => places.contains p.place).map Parameter.schema

/-- The nodes whose types the action of an operation takes, in the order in which they are asked
for. -/
def askedNodes [MediaType.Reading] (o : Operation) : List NodeId :=
  parameterNodes o [.path, .query] ++ (parameterNodes o [.header] ++
    ((requestNode? o.request).toList ++ (responseNode? o.response).toList))

theorem performs_spellNode (id : NodeId) : Performs d (spellNode d id) [id] :=
  (Performs.node id).then_pure fun _ => Performs.get.then_pure fun _ => Performs.pure _

theorem performs_parametersIn (o : Operation) (places : List ParameterPlace) :
    Performs d (parametersIn d o places) (parameterNodes o places) := by
  have hone : ∀ p : Parameter, Performs d (parameterOf d p) [p.schema] := fun p =>
    (performs_spellNode p.schema).then_pure fun _ => Performs.pure _
  rw [parameterNodes, List.map_eq_flatMap]
  exact Performs.mapM hone _

theorem performs_requestOf [MediaType.Reading] (b : Option Body) :
    Performs d (requestOf d b) (requestNode? b).toList := by
  cases b with
  | none => exact Performs.pure _
  | some b =>
    unfold requestOf requestNode?
    simp only [Option.bind_some]
    split
    · next id hj =>
      rw [hj, Option.some_or]
      exact (performs_spellNode id).then_pure fun _ => Performs.pure _
    · next id hj hf =>
      rw [hj, hf, Option.none_or]
      exact (Performs.node id).then_pure fun _ => Performs.get.then_pure fun _ => Performs.pure _
    · next hj hf =>
      rw [hj, hf]
      exact Performs.pure _

theorem performs_returnTypeOf [MediaType.Reading] (b : Option Body) :
    Performs d (returnTypeOf d b) (responseNode? b).toList := by
  cases b with
  | none => exact Performs.pure _
  | some b =>
    unfold returnTypeOf responseNode?
    simp only [Option.bind_some]
    split
    · exact Performs.pure _
    · split
      · next id hj =>
        rw [hj, Option.some_or]
        exact performs_spellNode id
      · next id hj ha =>
        rw [hj, ha, Option.none_or]
        exact performs_spellNode id
      · next hj ha =>
        rw [hj, ha]
        exact Performs.pure _

theorem performs_actionOf [MediaType.Reading] [Text.Transliteration] (options : Options)
    (o : Operation) :
    Performs d (actionOf d options o) (askedNodes o) :=
  (performs_parametersIn o _).bind fun _ => (performs_parametersIn o _).bind fun _ =>
    (performs_requestOf o.request).bind fun _ =>
      (performs_returnTypeOf o.response).then_pure fun _ => Performs.pure _

/-- Making a client asks for the nodes of its operations, operation by operation. -/
theorem performs_project [MediaType.Reading] [Text.Transliteration] (options : Options) :
    Performs d (project d options) (d.operations.flatMap askedNodes) := by
  have hone : ∀ o, Performs d (submitted d options o) (askedNodes o) := fun o =>
    (performs_actionOf options o).then_pure fun _ => Performs.pure _
  unfold project
  rw [placeAll_eq]
  exact ((Performs.mapM hone _).then_pure fun _ => Performs.pure _).then_pure fun _ =>
    Performs.pure _

theorem mem_roots_of_asked [MediaType.Reading] {o : Operation} {id : NodeId}
    (h : id ∈ askedNodes o) :
    id ∈ o.roots := by
  have hcontent : ∀ {b : Body} {kind}, contentOf? b kind = some id → id ∈ b.roots := by
    intro b kind hb
    obtain ⟨p, hfind, rfl⟩ := Option.map_eq_some_iff.1 hb
    exact List.mem_map.2 ⟨p, List.mem_of_find?_eq_some hfind, rfl⟩
  have hparameters : ∀ {places}, id ∈ parameterNodes o places →
      id ∈ o.parameters.map Parameter.schema := by
    intro places hp
    unfold parameterNodes at hp
    obtain ⟨p, hmem, rfl⟩ := List.mem_map.1 hp
    exact List.mem_map.2 ⟨p, List.mem_of_mem_filter hmem, rfl⟩
  unfold Operation.roots
  simp only [askedNodes, List.mem_append, Option.mem_toList] at h
  simp only [List.mem_append, List.mem_flatMap, Option.mem_toList]
  rcases h with h | h | h | h
  · exact .inl (.inl (hparameters h))
  · exact .inl (.inl (hparameters h))
  · obtain ⟨b, hb, h⟩ := Option.bind_eq_some_iff.1 h
    refine .inl (.inr ⟨b, hb, ?_⟩)
    rcases Option.or_eq_some_iff.1 h with h | ⟨-, h⟩
    · exact hcontent h
    · exact hcontent h
  · obtain ⟨b, hb, h⟩ := Option.bind_eq_some_iff.1 h
    refine .inr ⟨b, hb, ?_⟩
    split at h
    · cases h
    · rcases Option.or_eq_some_iff.1 h with h | ⟨-, h⟩
      · exact hcontent h
      · exact hcontent h

end Client

end TypedClient
