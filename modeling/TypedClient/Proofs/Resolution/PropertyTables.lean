import TypedClient.Proofs.Model.Declared
import TypedClient.Proofs.Resolution.Objects

/-! The properties of objects against the schemas that they are read of. What an object declares and
requires is what its schema and the objects in its `allOf` list, with one exception: a schema that
has nothing but an `allOf` may list properties as required beside it, and that list is not read. -/

namespace TypedClient

namespace Schema

/-- The properties that a schema lists as required. -/
def requiredNames (fields : Assoc String Json) : List String :=
  ((items? fields "required").getD []).filterMap Json.asString?

/-- The schema, or an object that is merged into it, lists the property as required. -/
def ListsRequired (fields : Assoc String Json) (name : String) : Prop :=
  name ∈ requiredNames fields ∨
    ∃ inner ∈ mergedObjects (allOfMembers fields), name ∈ requiredNames inner

/-- The names of all properties that are declared for a schema: those of the objects that are merged
into it, then its own. -/
def declaredInOrder (fields : Assoc String Json) : List String :=
  (mergedObjects (allOfMembers fields)).flatMap
    (fun inner => Assoc.keys (declaredProperties inner)) ++ Assoc.keys (ownProperties fields)

end Schema

namespace Document

open Schema

variable {d : Document} {fields : Assoc String Json} {id : NodeId} {shape : ObjectShape}

/-- What the object that a node is resolved as says of the schema. -/
structure ObjectTold (d : Document) (fields : Assoc String Json) (shape : ObjectShape) : Prop where
  properties : Assoc.Alike d.arena.Holds (ownProperties fields) shape.properties
  allOf : List.Forall₂ d.arena.Holds (allOfMembers fields) shape.allOf
  required : shape.required = if form fields = .object then requiredNames fields else []

theorem told_of_objectShape? (hid : d.arena.Holds (.obj fields) id)
    (hshape : d.objectShape? id = some shape) : ObjectTold d fields shape := by
  have hkind := hid.told.kind
  rcases kind_of_objectShape? hshape with hk | ⟨members, hk, -, rfl⟩
  · rw [hk] at hkind
    generalize hform : form fields = f at hkind
    cases hkind with
    | object htold =>
      refine ⟨?_, ?_, ?_⟩
      · rw [ownProperties, if_pos hform]
        exact htold.properties
      · rw [allOfMembers, hform]
        exact htold.allOf
      · rw [if_pos hform]
        exact htold.required
  · rw [hk] at hkind
    generalize hform : form fields = f at hkind
    cases hkind with
    | combination hcombination hm =>
      have hne : form fields ≠ .object := by
        rw [hform]
        nofun
      refine ⟨?_, ?_, ?_⟩
      · rw [ownProperties, if_neg hne]
        exact .nil
      · rw [allOfMembers, hform, hcombination]
        exact holds_of_saying hm
      · rw [if_neg hne]

/-- Objects, and combinations with an `allOf` of several members, are resolved as objects. -/
theorem exists_objectShape? (hid : d.arena.Holds (.obj fields) id)
    (h : form fields = .object ∨ 2 ≤ (allOfMembers fields).length) :
    ∃ shape, d.objectShape? id = some shape := by
  have hkind := hid.told.kind
  unfold objectShape?
  unfold allOfMembers at h
  generalize form fields = f at hkind h
  generalize (d.arena.get id).kind = kind at hkind ⊢
  cases hkind with
  | @object shape _ => exact ⟨shape, rfl⟩
  | @combination how members ids hcombination hm =>
    rw [hcombination] at h
    have hseveral := h.resolve_left nofun
    cases how with
    | allOf =>
      have hlength := (holds_of_saying hm).length_eq
      dsimp only at hseveral ⊢
      rw [hlength] at hseveral
      exact ⟨_, if_pos hseveral⟩
    | anyOf | oneOf => exact absurd hseveral (Nat.not_succ_le_zero 1)
  | reference | array | enum | primitive | empty => exact absurd h (by simp)

theorem ObjectTold.keys_declarations (h : ObjectTold d fields shape) :
    Assoc.keys (d.declarations shape) = declaredInOrder fields := by
  have hmerged : (mergedObjects (allOfMembers fields)).map
      (fun inner => Assoc.keys (declaredProperties inner)) =
        (d.mergedShapes shape.allOf).map fun other => Assoc.keys other.properties :=
    map_eq_of_forall₂ (told_of_mergedObjects h.allOf) fun _ _ hother => hother.properties.keys
  rw [declaredInOrder, h.properties.keys, declarations, Assoc.keys, List.map_flatMap,
    List.flatMap_append, List.flatMap_singleton, List.flatMap_def, List.flatMap_def, hmerged]
  rfl

/-- What is required of an object is what its schema lists, unless that is no object itself. -/
theorem ObjectTold.requires_iff (h : ObjectTold d fields shape) (name : String) :
    d.Requires shape name ↔ (form fields = .object ∧ name ∈ requiredNames fields) ∨
      ∃ inner ∈ mergedObjects (allOfMembers fields), name ∈ requiredNames inner := by
  have hmerged := told_of_mergedObjects h.allOf
  unfold Requires
  rw [h.required]
  refine or_congr ?_ ⟨?_, ?_⟩
  · split
    · next hform => exact (and_iff_right hform).symm
    · next hform => exact iff_of_false List.not_mem_nil fun hboth => hform hboth.1
  · rintro ⟨other, hother, hname⟩
    obtain ⟨inner, hinner, htold⟩ := exists_of_mem_right hmerged hother
    rw [htold.required] at hname
    exact ⟨inner, hinner, hname⟩
  · rintro ⟨inner, hinner, hname⟩
    obtain ⟨other, hother, htold⟩ := exists_of_mem_left hmerged hinner
    refine ⟨other, hother, ?_⟩
    rw [htold.required]
    exact hname

/-- Where what is required of an object is what its schema and the merged objects list. -/
theorem ObjectTold.requires_iff_lists (h : ObjectTold d fields shape) (name : String) :
    (d.Requires shape name ↔ ListsRequired fields name) ↔
      form fields = .object ∨ (name ∈ requiredNames fields →
        ∃ inner ∈ mergedObjects (allOfMembers fields), name ∈ requiredNames inner) := by
  rw [h.requires_iff, ListsRequired]
  tauto

end Document

namespace Resolver

open Document Schema

variable {d : Document} {fields : Assoc String Json} {id : NodeId}

/-- The call for a named schema, from nothing. -/
theorem exists_call {root : Json} {name : String} {v : Json}
    (hv : Assoc.get? (namedSchemas root) name = some v)
    (hrun : ((ofJson root).toOption.bind fun d => (Assoc.get? d.schemas name).bind fun id =>
      (outcome (resolveNode d [] id) {}).1.toOption).isSome = true) :
    ∃ d id t r', ofJson root = .ok d ∧ d.arena.Holds v id ∧
      outcome (resolveNode d [] id) {} = (.ok t, r') := by
  cases hd : ofJson root with
  | error e =>
    rw [hd] at hrun
    cases hrun
  | ok d =>
    obtain ⟨id, hn, hid⟩ := holds_named hd hv
    rw [hd] at hrun
    replace hrun : ((Assoc.get? d.schemas name).bind fun id =>
      (outcome (resolveNode d [] id) {}).1.toOption).isSome = true := hrun
    rw [hn] at hrun
    rcases ho : outcome (resolveNode d [] id) {} with ⟨e | t, r'⟩
    · rw [Option.bind_some, ho] at hrun
      cases hrun
    · exact ⟨d, id, t, r', rfl, hid, ho⟩

/-- The property table of an object schema, or of a schema that has nothing but an `allOf`, of
several members that say something. Whatever has been resolved before, the type that it comes to has
all properties that are declared for it, where each of them is declared first and as it is declared
last, and the base that the `allOf` gives. The properties that are required are those that the
schema or an object that is merged into it lists, for all object schemas; for the others, exactly
when their own lists name no property that none of the merged objects lists. If the members of the
`allOf` cannot be merged, there is no type. -/
theorem property_table {root : Json} (h : ofJson root = .ok d)
    (hid : d.arena.Holds (.obj fields) id)
    (hobject : form fields = .object ∨ 2 ≤ (allOfMembers fields).length) :
    ∃ shape, d.objectShape? id = some shape ∧ ObjectTold d fields shape ∧
      (∀ {path r t r'}, Assoc.get? r.memo id = none →
        outcome (resolveNode d path id) r = (.ok t, r') →
        ∃ info, r'.graph.get? t = some info ∧ Tabulates d r' shape info ∧
          Assoc.keys info.properties = (declaredInOrder fields).eraseDups ∧
          ((∀ p ∈ info.properties, (p.2.required = true ↔ ListsRequired fields p.1)) ↔
            form fields = .object ∨ ∀ p ∈ info.properties, p.1 ∈ requiredNames fields →
              ∃ inner ∈ mergedObjects (allOfMembers fields), p.1 ∈ requiredNames inner)) ∧
      (d.Unmergeable shape.allOf →
        (∀ requests, Assoc.get? (served d requests).memo id = none) ∧
        ∀ path r, Assoc.get? r.memo id = none → ∃ fault, outcome (resolveNode d path id) r =
          (.error (.unsupportedCombination (site d path).location fault), r)) := by
  have hd := forest_of_ofJson h
  obtain ⟨shape, hshape⟩ := exists_objectShape? hid hobject
  have htold := told_of_objectShape? hid hshape
  refine ⟨shape, hshape, htold, fun hnew ho => ?_, fun hbad => ⟨fun requests => ?_, fun _ _ => ?_⟩⟩
  · obtain ⟨info, hinfo, htable⟩ := tabulates_of_resolveNode hd hshape hnew ho
    refine ⟨info, hinfo, htable, by rw [htable.names, htold.keys_declarations], ?_, ?_⟩
    · intro hrequired
      refine (em (form fields = .object)).imp_right fun hform p hp => ?_
      have hlists := (htable.required_iff hp).symm.trans (hrequired p hp)
      exact ((htold.requires_iff_lists p.1).1 hlists).resolve_left hform
    · intro hlists p hp
      have hrequires := (htold.requires_iff_lists p.1).2 (hlists.imp_right fun hall => hall p hp)
      exact (htable.required_iff hp).trans hrequires
  · exact not_typed_of_unmergeable hd hshape hbad requests
  · exact outcome_of_unmergeable hd hshape hbad

/-- A dog, which extends a pet and has to say whether it barks. -/
def barking : Assoc String Json := [
  ("allOf", .arr [
    .obj [("$ref", .str "#/components/schemas/Pet")],
    .obj [("type", .str "object"), ("properties", .obj [
      ("bark", .obj [("type", .str "boolean"), ("nullable", .bool true)])])]]),
  ("required", .arr [.str "bark"])]

/-- The same dog, as an object with a type of its own. -/
def barkingObject : Assoc String Json := ("type", .str "object") :: barking

/-- A document with a pet and this dog. -/
def withDog (dog : Assoc String Json) : Json :=
  Projection.documentWith [("Pet", Projection.pet), ("Dog", dog)]

theorem get?_withDog (dog : Assoc String Json) :
    Assoc.get? (namedSchemas (withDog dog)) "Dog" = some (.obj dog) := by
  refine Projection.get?_namedSchemas_documentWith ?_ (List.mem_cons_of_mem _ List.mem_cons_self)
  show ["Pet", "Dog"].Nodup
  decide

theorem property_table_barking :
    ∃ d id t r' info, ofJson (withDog barkingObject) = .ok d ∧
      outcome (resolveNode d [] id) {} = (.ok t, r') ∧ r'.graph.get? t = some info ∧
      Assoc.keys info.properties = ["bark"] ∧
      ∀ p ∈ info.properties, (p.2.required = true ↔ p.1 ∈ ["bark"]) := by
  obtain ⟨d, id, t, r', hd, hid, ho⟩ := exists_call (get?_withDog barkingObject) (by decide +kernel)
  obtain ⟨shape, -, -, htable, -⟩ := property_table hd hid (.inl (by decide +kernel))
  obtain ⟨info, hinfo, -, hnames, hrequired⟩ := htable rfl ho
  have hdeclared : (declaredInOrder barkingObject).eraseDups = ["bark"] := by decide +kernel
  have hlists : ∀ name, ListsRequired barkingObject name ↔ name ∈ ["bark"] := by
    have hown : requiredNames barkingObject = ["bark"] := by decide +kernel
    have hmerged : ∀ inner ∈ mergedObjects (allOfMembers barkingObject),
        requiredNames inner = [] := by decide +kernel
    intro name
    rw [ListsRequired, hown]
    refine or_iff_left ?_
    rintro ⟨inner, hinner, hname⟩
    rw [hmerged inner hinner] at hname
    exact List.not_mem_nil hname
  refine ⟨d, id, t, r', info, hd, ho, hinfo, hnames.trans hdeclared, fun p hp => ?_⟩
  rw [hrequired.2 (.inl (by decide +kernel)) p hp, hlists]

/-- Without the type, what the dog itself lists as required is not. -/
theorem bark_not_required :
    ∃ d id t r' info p, ofJson (withDog barking) = .ok d ∧ d.arena.Holds (.obj barking) id ∧
      outcome (resolveNode d [] id) {} = (.ok t, r') ∧ r'.graph.get? t = some info ∧
      ListsRequired barking "bark" ∧ Assoc.get? info.properties "bark" = some p ∧
      p.required = false := by
  obtain ⟨d, id, t, r', hd, hid, ho⟩ := exists_call (get?_withDog barking) (by decide +kernel)
  obtain ⟨shape, hshape⟩ := exists_objectShape? hid (.inr (by decide +kernel))
  have htold := told_of_objectShape? hid hshape
  obtain ⟨info, hinfo, htable⟩ := tabulates_of_resolveNode (forest_of_ofJson hd) hshape rfl ho
  have hdeclared : "bark" ∈ Assoc.keys (d.declarations shape) := by
    rw [htold.keys_declarations]
    decide +kernel
  obtain ⟨node, hlast⟩ := Assoc.exists_isLast hdeclared
  obtain ⟨p, hp, hproperty⟩ := htable.properties hlast
  refine ⟨d, id, t, r', info, p, hd, hid, ho, hinfo, .inl (by decide +kernel), hp, ?_⟩
  have hmerged : ∀ inner ∈ mergedObjects (allOfMembers barking), "bark" ∉ requiredNames inner := by
    decide +kernel
  rw [← Bool.not_eq_true, hproperty.required, htold.requires_iff]
  rintro (⟨hform, -⟩ | ⟨inner, hinner, hname⟩)
  · exact absurd hform (by decide +kernel)
  · exact hmerged inner hinner hname

end Resolver

end TypedClient
