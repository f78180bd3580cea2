import TypedClient.Proofs.Resolution.Requests

/-! What types look like after any requests, those that failed included. An array is built in and
has nothing but its element and a description, only generic types have arguments, and no array takes
the name of a schema. Each of the functions that resolve a node adds such types only, whatever the
calls give that it makes, and naming a type changes none of this. -/

namespace TypedClient

namespace Resolver

variable {α β : Type} {d : Document} {r : Resolver}

/-- What types look like: an array is nothing but its element, and only a generic type has
arguments. -/
structure Formed (t : TypeInfo) : Prop where
  array : t.isArray = true → ∃ element, t = { TypeInfo.builtin t.name with
    isArray := true, element := some element, description := t.description }
  arguments : t.genericArguments ≠ [] → t.isGeneric = true

/-- All types look so, and those that may take a name are no arrays. -/
structure FormedTypes (r : Resolver) : Prop where
  types : ∀ {id t}, r.graph.get? id = some t → Formed t
  nameable : ∀ {id node}, Assoc.get? r.nameable id = some node →
    ∃ t, r.graph.get? id = some t ∧ t.isArray = false

theorem formed_of_plain {t : TypeInfo} (ha : t.isArray = false)
    (hg : t.genericArguments ≠ [] → t.isGeneric = true) : Formed t :=
  ⟨fun h => absurd (ha.symm.trans h) Bool.false_ne_true, hg⟩

theorem formed_builtin (name : String) : Formed (TypeInfo.builtin name) :=
  formed_of_plain rfl fun h => absurd rfl h

theorem FormedTypes.get (h : FormedTypes r) (id : TypeId) : Formed (r.graph.get id) := by
  cases hid : r.graph.get? id with
  | some t =>
    rw [TypeGraph.get_of_get? hid]
    exact h.types hid
  | none =>
    rw [TypeGraph.get, hid]
    exact formed_builtin ""

/-! ### Rules for calls -/

/-- The call leaves such types behind, whether it fails or not, and a value that it gives satisfies
`Q`. -/
def Forms (x : Resolving α) (Q : α → Prop) : Prop :=
  ∀ r, FormedTypes r → FormedTypes (outcome x r).2 ∧ ∀ a, (outcome x r).1 = .ok a → Q a

namespace Forms

variable {Q Q' : α → Prop} {S : β → Prop} {x : Resolving α} {f : α → Resolving β}

theorem pure {a : α} (h : Q a) : Forms (Pure.pure a) Q := by
  intro r hr
  refine ⟨hr, fun b hb => ?_⟩
  cases hb
  exact h

theorem given (a : α) : Forms (Pure.pure a) fun _ => True := pure trivial

theorem throw (e : Failure) : Forms (throw e : Resolving α) Q := fun _ hr => ⟨hr, nofun⟩

theorem bind (hx : Forms x Q) (hf : ∀ a, Q a → Forms (f a) S) : Forms (x >>= f) S := by
  intro r hr
  obtain ⟨hleft, hgiven⟩ := hx r hr
  rw [outcome_bind]
  rcases hrun : outcome x r with ⟨e | a, r'⟩
  · rw [hrun] at hleft
    exact ⟨hleft, nofun⟩
  · rw [hrun] at hleft hgiven
    exact hf a (hgiven a rfl) r' hleft

theorem map (f : α → β) (hx : Forms x fun _ => True) : Forms (f <$> x) fun _ => True := by
  rw [map_eq_pure_bind]
  exact hx.bind fun a _ => given _

end Forms

/-! ### Steps on the state -/

theorem FormedTypes.insert (h : FormedTypes r) {t : TypeInfo} (ht : Formed t) :
    FormedTypes { r with graph := (r.graph.insert t).2 } where
  types {id u} hu := by
    have hu' : (r.graph.insert t).2.get? id = some u := hu
    rw [TypeGraph.get?_insert] at hu'
    split at hu'
    · cases hu'
      exact ht
    · exact h.types hu'
  nameable {id node} hn := by
    obtain ⟨u, hu, ha⟩ := h.nameable hn
    exact ⟨u, (TypeGraph.get?_insert_of_lt t (TypeGraph.lt_size_of_get? hu)).trans hu, ha⟩

theorem forms_typeInfo (id : TypeId) : Forms (typeInfo id) fun _ => True :=
  fun _ hr => ⟨hr, fun _ _ => trivial⟩

theorem forms_insertType {t : TypeInfo} (ht : Formed t) :
    Forms (insertType t) fun _ => True :=
  fun _ hr => ⟨hr.insert ht, fun _ _ => trivial⟩

theorem forms_intrinsic (name : String) : Forms (intrinsic name) fun _ => True := by
  intro r hr
  refine ⟨?_, fun _ _ => trivial⟩
  show FormedTypes { r with graph := (r.graph.intrinsic name).2 }
  unfold TypeGraph.intrinsic
  split
  · exact hr
  · have hadded := hr.insert (formed_of_plain (t := { TypeInfo.builtin name with isIntrinsic := true })
      rfl fun h => absurd rfl h)
    exact ⟨hadded.types, hadded.nameable⟩

/-- A type is added that may take a name unless it is an array. -/
theorem forms_add {t : TypeInfo} (ht : Formed t) (nameable : Bool)
    (ha : nameable = true → t.isArray = false) (id : NodeId) :
    Forms (do
      let type ← insertType t
      if nameable then markNameable type id
      pure type) fun _ => True := by
  intro r hr
  have hadded := hr.insert ht
  refine ⟨?_, fun _ _ => trivial⟩
  cases nameable with
  | false => exact hadded
  | true =>
    refine ⟨hadded.types, fun {other node} hn => ?_⟩
    have hn' : Assoc.get? (Assoc.put r.nameable r.graph.size id) other = some node := hn
    rw [Assoc.get?_put] at hn'
    split at hn'
    · next heq =>
      refine ⟨t, ?_, ha rfl⟩
      rw [← heq]
      exact (TypeGraph.get?_insert r.graph t _).trans (if_pos rfl)
    · exact hadded.nameable hn'

/-- What takes a name is no array, so it stays as it should look without being built in. -/
theorem forms_applyName (name : String) (node : NodeId) (type : TypeId) :
    Forms (applyName name node type) fun _ => True := by
  refine fun r hr => ⟨?_, fun _ _ => trivial⟩
  rcases applyName_cases name node type r with h | ⟨parsed, hn, h⟩
  · rw [h]
    exact hr
  · rw [h]
    obtain ⟨old, hold, harray⟩ := hr.nameable hn
    rw [TypeGraph.get_of_get? hold]
    constructor
    · intro id u hu
      have hu' : (r.graph.set type _).get? id = some u := hu
      rw [TypeGraph.get?_set, hold] at hu'
      split at hu'
      · cases hu'
        exact formed_of_plain harray (hr.types hold).arguments
      · exact hr.types hu'
    · intro id node' hn'
      obtain ⟨u, hu, ha⟩ := hr.nameable hn'
      show ∃ t, (r.graph.set type _).get? id = some t ∧ _
      rw [TypeGraph.get?_set, hold]
      split
      · exact ⟨_, rfl, harray⟩
      · exact ⟨u, hu, ha⟩

theorem forms_settle (name : String) (node : NodeId) (type : TypeId) :
    Forms (settle name node type) fun _ => True :=
  (forms_applyName name node type).bind fun _ _ =>
    Forms.bind (fun _ hr => ⟨⟨hr.types, hr.nameable⟩, fun _ _ => trivial⟩) fun _ _ => .given _

/-! ### What is done for a node -/

section Site

variable {s : Site Resolving}

/-- Going on from a site leaves types that look so. -/
structure Forming (s : Site Resolving) : Prop where
  child : ∀ c, Forms (s.child c) fun _ => True
  reference : ∀ name, Forms (s.reference name) fun _ => True

theorem forms_array (hs : Forming s) (schema : SchemaNode) (items : Option NodeId) :
    Forms (resolveArray s schema items) fun _ => True := by
  have hadd : ∀ element : TypeId, Forms (do
      let name := (← typeInfo element).name ++ "[]"
      insertType { TypeInfo.builtin name with
        isArray := true, element := some element, description := schema.description })
      fun _ => True := fun element =>
    (forms_typeInfo element).bind fun info _ =>
      forms_insertType ⟨fun _ => ⟨element, rfl⟩, fun h => absurd rfl h⟩
  unfold resolveArray
  cases items with
  | none => exact (Forms.given _).bind fun element _ => hadd element
  | some items => exact (hs.child items).bind fun element _ => hadd element

theorem forms_enum (id : NodeId) (schema : SchemaNode) (primitive : Primitive)
    (literals : List Json) : Forms (resolveEnum id schema primitive literals) fun _ => True :=
  forms_add (formed_of_plain rfl fun h => absurd rfl h) true (fun _ => rfl) id

theorem forms_allOf (hs : Forming s) (members : List NodeId) :
    Forms (resolveAllOf s members) fun _ => True := by
  match members with
  | [] => exact .given _
  | [member] => exact (hs.child member).bind fun _ _ => .given _
  | first :: second :: rest =>
    unfold resolveAllOf
    dsimp only
    split
    · exact .throw _
    · exact .given _
    · next base _ _ => exact (hs.child base).bind fun _ _ => .given _
    · exact .throw _

theorem forms_properties (hs : Forming s) (required : List String)
    (members : List (String × NodeId)) :
    Forms (resolveProperties s required members) fun _ => True := by
  induction members with
  | nil => exact .given _
  | cons member rest ih =>
    exact (hs.child member.2).bind fun _ _ => ih.bind fun _ _ => .given _

theorem forms_all (hs : Forming s) (ids : List NodeId) :
    Forms (resolveAll s ids) fun _ => True := by
  induction ids with
  | nil => exact .given _
  | cons id rest ih => exact (hs.child id).bind fun _ _ => ih.bind fun _ _ => .given _

/-- What makes an object generic: it is no array, and it has arguments only if it is generic. -/
theorem forms_generics (hs : Forming s) (hints : TypeHints) (shape : ObjectShape) {t : TypeInfo}
    (ha : t.isArray = false) (hgeneric : t.isGeneric = hints.isGenericType)
    (harguments : t.genericArguments = []) :
    Forms (applyGenerics s hints shape t) fun made =>
      made.1.isArray = false ∧ (made.1.genericArguments ≠ [] → made.1.isGeneric = true) := by
  have hdefinition : Forms (applyDefinition s hints shape t) fun made =>
      made.1.isArray = false ∧ made.1.isGeneric = hints.isGenericType := by
    unfold applyDefinition
    split
    · exact .pure ⟨ha, hgeneric⟩
    · split
      · next definition _ =>
        exact (hs.child definition).bind fun type _ => (forms_typeInfo type).bind fun _ _ =>
          .pure ⟨ha, hgeneric⟩
      · split
        · exact .pure ⟨ha, hgeneric⟩
        · exact .throw _
  unfold applyGenerics
  split
  · next hmarked =>
    refine hdefinition.bind fun made hmade => (forms_all hs _).bind fun _ _ => .pure ?_
    exact ⟨hmade.1, fun _ => hmade.2.trans hmarked⟩
  · split
    · exact .pure ⟨ha, fun h => absurd harguments h⟩
    · next additional _ =>
      refine (forms_intrinsic _).bind fun key _ => ?_
      cases additional with
      | any => exact (Forms.given _).bind fun _ _ => .pure ⟨ha, fun _ => rfl⟩
      | schema node => exact (hs.child node).bind fun _ _ => .pure ⟨ha, fun _ => rfl⟩

theorem forms_object (hs : Forming s) (id : NodeId) (schema : SchemaNode) (shape : ObjectShape) :
    Forms (resolveObject s id schema shape) fun _ => True := by
  unfold resolveObject
  refine (forms_allOf hs _).bind fun merging _ => (forms_properties hs _ _).bind fun properties _ =>
    (forms_generics hs schema.hints shape rfl rfl rfl).bind fun ⟨t, nameable⟩ hmade => ?_
  have hformed : Formed { t with fullName := t.name } := formed_of_plain hmade.1 hmade.2
  exact forms_add hformed nameable (fun _ => hmade.1) id

theorem forms_combination (hs : Forming s) (id : NodeId) (schema : SchemaNode) (how : Combination)
    (members : List NodeId) :
    Forms (resolveCombination s id schema how members) fun _ => True := by
  unfold resolveCombination
  split
  · exact .given _
  · exact hs.child _
  · exact forms_object hs id schema _
  · exact .throw _

theorem forms_kind (hs : Forming s) (id : NodeId) : Forms (resolveKind s id) fun _ => True := by
  unfold resolveKind
  dsimp only
  split
  · exact .given _
  · exact hs.reference _
  · exact forms_object hs id _ _
  · exact forms_array hs _ _
  · exact forms_intrinsic _
  · exact forms_enum id _ _ _
  · exact forms_combination hs id _ _ _

end Site

/-! ### Nodes and names -/

mutual

theorem forms_node (d : Document) (path : List String) (id : NodeId) :
    Forms (resolveNode d path id) fun _ => True := by
  rw [resolveNode]
  intro r hr
  rw [outcome_bind, outcome_get]
  dsimp only
  split
  · exact ⟨hr, fun _ _ => trivial⟩
  · refine Forms.bind (forms_kind ⟨fun c => ?_, fun name => forms_reference d path name⟩ id)
      (fun type _ => ?_) r hr
    · dsimp only
      split
      · exact forms_node d path c
      · exact .given _
    · exact Forms.bind (fun _ hr => ⟨⟨hr.types, hr.nameable⟩, fun _ _ => trivial⟩)
        fun _ _ => .given _
termination_by depthBelow d path + id + 1
decreasing_by
  · simp only [NodeId] at *
    omega
  · omega

theorem forms_reference (d : Document) (path : List String) (name : String) :
    Forms (resolveReference d path name) fun _ => True := by
  intro r hr
  rcases outcome_resolveReference d path name r with
    ⟨t, -, ho⟩ | ⟨-, ⟨-, ho⟩ | ⟨-, -, ho⟩ | ⟨root, hname, hn, ho⟩⟩
  · rw [ho]
    exact ⟨hr, fun _ _ => trivial⟩
  · rw [ho]
    exact ⟨⟨hr.types, hr.nameable⟩, fun _ _ => trivial⟩
  · rw [ho]
    exact ⟨hr, nofun⟩
  · have hdepth : depthBelow d (path ++ [name]) + root + 1 < depthBelow d path :=
      depthBelow_lt (by simpa using hname) hn
    rw [ho]
    exact (forms_node d _ root).bind (fun t _ => forms_settle name root t) r hr
termination_by depthBelow d path
decreasing_by omega

end

/-! ### Requests -/

theorem forms_request (d : Document) (request : Request) :
    Forms (request.run d) fun _ => True := by
  cases request with
  | builtin name => exact (forms_intrinsic name).map _
  | call asked =>
    cases asked with
    | named name => exact (forms_reference d [] name).map _
    | node id => exact (forms_node d [] id).map _
    | all =>
      refine Forms.map _ ?_
      unfold all
      generalize d.schemas = schemas
      induction schemas with
      | nil => exact .given _
      | cons p rest ih =>
        show Forms (discard (named d p.1) >>= fun _ => rest.forM _) _
        exact ((forms_reference d [] p.1).map _).bind fun _ _ => ih

/-- After any requests all types look so. -/
theorem formedTypes_served (d : Document) (requests : List Request) :
    FormedTypes (served d requests) := by
  induction requests using List.reverseRecOn with
  | nil =>
    refine ⟨fun {id t} ht => ?_, fun hn => by cases hn⟩
    have hid : id = 0 := Nat.lt_one_iff.1 (TypeGraph.lt_size_of_get? ht)
    subst hid
    cases ht
    exact formed_of_plain rfl fun h => absurd rfl h
  | append_singleton requests request ih =>
    rw [served_concat]
    exact (forms_request d request _ ih).1

end Resolver

end TypedClient
