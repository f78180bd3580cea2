import TypedClient.Proofs.Resolution.Finished
import TypedClient.Proofs.Resolution.Origins

/-! The types of objects that take the name of their schema. Such a type is told by the plan for its
node: it says of itself what the plan says, has a property for each field, and is called as its
schema is. The fields are those of the object and of the objects that are merged into it. -/

namespace TypedClient

namespace Document

variable {d : Document} {name : String}

/-! ### The fields of a plan -/

theorem mem_keys_mergeProperties {shapes : List ObjectShape} :
    name ∈ Assoc.keys (Resolver.mergeProperties shapes) ↔
      ∃ shape ∈ shapes, name ∈ Assoc.keys shape.properties := by
  have hkeys : name ∈ Assoc.keys (Assoc.putAll [] (shapes.flatMap ObjectShape.properties)) ↔
      name ∈ Assoc.keys (shapes.flatMap ObjectShape.properties) :=
    Assoc.mem_keys_putAll.trans (or_iff_right List.not_mem_nil)
  rw [mergeProperties_eq, Assoc.ofPairs, hkeys]
  simp only [Assoc.keys, List.mem_map, List.mem_flatMap]
  constructor
  · rintro ⟨p, ⟨shape, hshape, hp⟩, hname⟩
    exact ⟨shape, hshape, p, hp, hname⟩
  · rintro ⟨shape, hshape, p, hp, hname⟩
    exact ⟨p, ⟨shape, hshape, hp⟩, hname⟩

/-- Of the members of an `allOf`, those that are merged are told by their number. -/
theorem merging?_merged {members : List NodeId} {base : Option NodeId} {merged : List ObjectShape}
    (h : d.merging? members = some (base, merged)) : merged = d.mergedShapes members := by
  unfold merging? at h
  unfold mergedShapes
  split at h
  · cases h
    rfl
  · cases h
    rfl
  · next _ hone =>
    split
    · exact absurd rfl (hone _)
    · split at h
      · next hs =>
        cases h
        exact (Resolver.sortMembers_ok hs).2
      · next hs =>
        cases h
        exact (Resolver.sortMembers_ok hs).2
      · cases h

theorem mem_fields_of_plan? {schema : SchemaNode} {shape : ObjectShape} {plan : Plan}
    (h : d.plan? schema shape = some plan) :
    name ∈ Assoc.keys plan.fields ↔ name ∈ Assoc.keys shape.properties ∨
      ∃ other ∈ d.mergedShapes shape.allOf, name ∈ Assoc.keys other.properties := by
  unfold plan? at h
  split at h
  · next base merged generics hmerging hgenerics =>
    cases h
    have hkeys : Assoc.keys (d.fields shape merged) =
        Assoc.keys (Resolver.mergeProperties (merged ++ [shape])) := by
      unfold fields Assoc.keys
      rw [List.map_map]
      rfl
    show name ∈ Assoc.keys (d.fields shape merged) ↔ _
    rw [hkeys, mem_keys_mergeProperties, ← merging?_merged hmerging]
    constructor
    · rintro ⟨other, hother, hname⟩
      rcases List.mem_append.1 hother with hother | hother
      · exact .inr ⟨other, hother, hname⟩
      · exact .inl (List.mem_singleton.1 hother ▸ hname)
    · rintro (hname | ⟨other, hother, hname⟩)
      · exact ⟨shape, List.mem_append_right _ List.mem_cons_self, hname⟩
      · exact ⟨other, List.mem_append_left _ hother, hname⟩
  · cases h

end Document

/-! ### Types that take a name -/

/-- Whether objects with these generics take the names of their schemas. -/
def Genericity.TakesName : Genericity → Prop
  | .plain | .definition _ => True
  | .applied .. | .keyed _ | .record _ => False

theorem Genericity.Makes.of_takesName {generics : Genericity} {r : Resolver} {t made : TypeInfo}
    {nameable : Bool} (h : generics.Makes r t made nameable) (htakes : generics.TakesName) :
    nameable = true ∧ made = { t with genericArguments := made.genericArguments } := by
  cases h with
  | plain => exact ⟨rfl, rfl⟩
  | definition ha => exact ⟨rfl, rfl⟩
  | applied | keyed | openRecord | record => exact htakes.elim

/-- A definition, or an object that is neither generic nor open, takes its name. -/
theorem Document.takesName_of_genericity? {hints : TypeHints} {shape : ObjectShape}
    {generics : Genericity} (h : genericity? hints shape = some generics)
    (hclosed : shape.additional = none ∨ hints.isGenericType = true)
    (hinstance : (hints.isGenericType && !hints.isGenericTypeDefinition) = false) :
    generics.TakesName := by
  unfold genericity? at h
  split at h
  · next hgeneric =>
    rw [hgeneric, Bool.true_and, Bool.not_eq_false'] at hinstance
    rw [if_pos hinstance] at h
    cases h
    trivial
  · next hgeneric =>
    rw [hclosed.resolve_right hgeneric] at h
    cases h
    trivial

/-- Under a name of its own, an object that is neither a parameter nor an instance is a model. -/
theorem Document.isModel_objectType {schema : SchemaNode}
    (hparameter : schema.hints.isGenericParameter = false)
    (hinstance : (schema.hints.isGenericType && !schema.hints.isGenericTypeDefinition) = false)
    (properties : Assoc String Property) (base : Option TypeId) (arguments : List TypeId)
    (name : TypeName) :
    (({ objectType schema with properties, base, genericArguments := arguments } :
      TypeInfo).rename name).isModel = true := by
  simp only [TypeInfo.isModel, TypeInfo.rename, objectType, hparameter]
  generalize schema.hints.isGenericType = generic at hinstance ⊢
  cases generic with
  | false => rfl
  | true => simpa using hinstance

namespace Resolver

variable {d : Document} {r : Resolver}

/-- A named schema has got a type, so it has a source. -/
theorem Finished.source?_eq_some [MediaType.Reading] (hr : Finished d r) {name : String}
    {root : NodeId}
    (hn : Assoc.get? d.schemas name = some root) : ∃ source, d.source? root = some source := by
  obtain ⟨t, ht, -⟩ := hr.named hn
  rcases hr.faithful.comes ht with ⟨source, htold, -⟩ | ⟨source, _, _, hmade⟩
  · exact ⟨source, htold⟩
  · exact ⟨source, hmade.told⟩

/-- The type of a named object. -/
theorem Finished.takesName [MediaType.Reading] (hd : d.Forest) (hr : Finished d r) {name : String}
    {root : NodeId}
    {plan : Plan} (hn : Assoc.get? d.schemas name = some root)
    (hs : d.source? root = some (.object plan)) (htakes : plan.generics.TakesName) :
    ∃ t parsed, Rooted d r t ∧ TypeName.parse name = .ok parsed ∧
      Assoc.keys (r.graph.get t).properties = Assoc.keys plan.fields ∧
      ∃ properties base arguments, r.graph.get t = ({ plan.start with
        properties, base, genericArguments := arguments } : TypeInfo).rename parsed := by
  obtain ⟨t, ht, -⟩ := hr.named hn
  rcases hr.faithful.comes ht with ⟨source, htold, hpasses⟩ | ⟨source, made, nameable, hmade⟩
  · rw [hs] at htold
    cases htold
    cases hpasses
  · have htold := hmade.told
    rw [hs] at htold
    cases htold
    obtain ⟨info, hinfo, htitles⟩ := hmade.titled
    cases hmade.makes with
    | @object _ base properties made _ hbase hproperties hgenerics =>
      obtain ⟨rfl, heq⟩ := hgenerics.of_takesName htakes
      cases htitles with
      | @own other parsed _ hother hparsed =>
        rw [hd.name_unique hother hn] at hparsed
        have hget : r.graph.get t = ({ plan.start with
            properties, base, genericArguments := made.genericArguments } :
            TypeInfo).rename parsed := by
          rw [TypeGraph.get_of_get? hinfo, heq]
          rfl
        have hkeys : plan.fields.map Prod.fst = properties.map Prod.fst :=
          map_eq_of_forall₂ hproperties fun _ _ ⟨_, _, h⟩ => by rw [h]
        refine ⟨t, parsed, hr.faithful.rooted ht, hparsed, ?_, properties, base, _, hget⟩
        rw [hget]
        exact hkeys.symm
      | kept hdeclares => exact absurd ⟨name, hn⟩ (hdeclares rfl)

end Resolver

end TypedClient
