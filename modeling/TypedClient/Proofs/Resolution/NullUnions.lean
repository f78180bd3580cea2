import TypedClient.Proofs.Resolution.PropertyTables
import TypedClient.Proofs.Resolution.StandIns

/-! Unions with null: an `anyOf` or a `oneOf` of some schema and one that is nothing but null. A
union like this has the type of the schema, which does not tell that null is allowed; so a property
that is declared as one may be null only where the union itself says so, beside its members. -/

namespace TypedClient

open Resolver

namespace Document

variable {d : Document} {c s : NodeId}

def nullSchema : Json := .obj [("type", .str "null")]

/-- The node is a union of `s` and null, in either order. -/
def IsNullUnion (d : Document) (c s : NodeId) : Prop :=
  ∃ how members n, (d.arena.get c).kind = .combination how members ∧ how ≠ .allOf ∧
    d.arena.Holds nullSchema n ∧ (members = [s, n] ∨ members = [n, s])

/-- A schema that is such a union has nodes for both. -/
theorem exists_isNullUnion {fields : Assoc String Json} {how : Combination} {v : Json}
    {vs : List Json} (hc : d.arena.Holds (.obj fields) c)
    (hform : Schema.form fields = .combination)
    (hmembers : Schema.combination? fields = some (how, vs)) (hhow : how ≠ .allOf)
    (hvs : vs = [v, nullSchema] ∨ vs = [nullSchema, v]) :
    ∃ s, d.arena.Holds v s ∧ d.IsNullUnion c s := by
  have hkind := hc.told.kind
  generalize hk : (d.arena.get c).kind = kind at hkind
  rw [hform] at hkind
  cases hkind with
  | combination hcombination hids =>
    rw [hmembers] at hcombination
    cases hcombination
    rcases hvs with rfl | rfl
    · obtain ⟨s, rest, hs, hrest, rfl⟩ := List.forall₂_cons_left_iff.1 hids
      obtain ⟨n, rest, hn, hnil, rfl⟩ := List.forall₂_cons_left_iff.1 hrest
      cases hnil
      exact ⟨s, hs, how, _, n, hk, hhow, hn, .inl rfl⟩
    · obtain ⟨n, rest, hn, hrest, rfl⟩ := List.forall₂_cons_left_iff.1 hids
      obtain ⟨s, rest, hs, hnil, rfl⟩ := List.forall₂_cons_left_iff.1 hrest
      cases hnil
      exact ⟨s, hs, how, _, n, hk, hhow, hn, .inr rfl⟩

theorem saysNothing_of_isNullOnly (h : isNullOnly (d.arena.get s) = true) : d.SaysNothing s := by
  unfold isNullOnly at h
  unfold SaysNothing
  cases hk : (d.arena.get s).kind with
  | empty => exact .inl rfl
  | reference | object | array | enum | primitive | combination =>
    rw [hk] at h
    simp [SchemaKind.isEmpty] at h

/-- The union stands for the schema, unless that only allows null itself. -/
theorem IsNullUnion.stands (h : d.IsNullUnion c s) :
    d.StandsFor c s ∨ d.SaysNothing c ∧ d.SaysNothing s := by
  obtain ⟨how, members, n, hk, -, hn, hmembers⟩ := h
  have hnull : isNullOnly (d.arena.get n) = true := hn.isNullOnly
  cases hs : isNullOnly (d.arena.get s) with
  | true =>
    refine .inr ⟨.inr ⟨how, members, hk, ?_⟩, saysNothing_of_isNullOnly hs⟩
    rcases hmembers with rfl | rfl <;> simp [sayingMembers, hs, hnull]
  | false =>
    refine .inl ⟨how, members, hk, ?_⟩
    rcases hmembers with rfl | rfl <;> simp [sayingMembers, hs, hnull]

theorem IsNullUnion.lt (hd : d.Forest) (h : d.IsNullUnion c s) : s < c := by
  obtain ⟨how, members, n, hk, -, -, hmembers⟩ := h
  have hs : s ∈ members := by rcases hmembers with rfl | rfl <;> simp
  refine hd.child_lt ?_
  unfold SchemaNode.children
  rw [hk]
  exact List.mem_append_right _ hs

end Document

namespace Resolver

open Document

variable {d : Document} {r : Resolver} {id c s : NodeId} {t : TypeId} {path : List String}
  {shape : ObjectShape}

/-- A property that is declared for an object is resolved before the object. -/
theorem lt_of_isLast (hd : d.Forest) (hshape : d.objectShape? id = some shape) {name : String}
    (hlast : Assoc.IsLast (d.declarations shape) name c) : c < id := by
  refine hd.next_lt ?_
  rw [next_of_objectShape? hshape]
  exact mem_objectNodes_of_isLast _ hlast

/-- A union that gets its type in a call gets the type of the schema that it is a union of. -/
theorem resolvesTo_of_isNullUnion (hd : d.Forest) (hunion : d.IsNullUnion c s) (hid : id ≠ s)
    (hbefore : ∀ u, r.Typed c u → ResolvesTo d r s u)
    (hc : (outcome (resolveNode d path id) r).2.Typed c t) :
    ResolvesTo d (outcome (resolveNode d path id) r).2 s t := by
  have hadvances := advances_node hd demands_onlyAny path id r
  cases hm : Assoc.get? r.memo c with
  | some u =>
    cases hc.unique (hadvances.memo hm)
    exact (hbefore _ hm).of_recalls hadvances.toRecalls
  | none =>
    have hnew : ∀ u, ¬ r.Typed c u := fun u hu => by cases hm.symm.trans hu
    rcases hunion.stands with hst | ⟨hnothing, hsilent⟩
    · have haccord : Accord c s r := fun u hu => absurd hu (hnew u)
      exact .inl ((goingOn_keepsAccord hd hst).goes_node hd path id hid r haccord t hc)
    · exact .inr ⟨hsilent, (hadvances.typed hc).elim (fun hu => absurd hu (hnew t)) (· hnothing)⟩

/-- After any requests, a union has no other type than the schema, unless that was asked for on its
own. -/
theorem resolvesTo_served (hd : d.Forest) (hunion : d.IsNullUnion c s) {requests : List Request}
    (hasked : .call (.node s) ∉ requests) (hc : (served d requests).Typed c t) :
    ResolvesTo d (served d requests) s t := by
  rcases hunion.stands with hst | ⟨hnothing, hsilent⟩
  · exact .inl (accord_served hd hst hasked t hc)
  · exact .inr ⟨hsilent, holds_of_typed hd demands_onlyAny hc hnothing⟩

/-- Properties that are unions with null. Whatever has been resolved before, the type that an object
comes to has for each of these a property with the type of the schema, provided that the union had
no other type before; and it has none after any requests but ones for the schema on its own. The
property is nullable unless it is required, exactly where it is required or the union allows null by
itself: that one of its members is null does not count. -/
theorem null_union_property {root : Json} (h : ofJson root = .ok d) :
    (∀ {id shape path r t r'}, d.objectShape? id = some shape → Assoc.get? r.memo id = none →
      outcome (resolveNode d path id) r = (.ok t, r') →
      ∃ info, r'.graph.get? t = some info ∧
        ∀ {name c s}, Assoc.IsLast (d.declarations shape) name c → d.IsNullUnion c s →
          ∃ p, Assoc.get? info.properties name = some p ∧
            ((∀ u, r.Typed c u → ResolvesTo d r s u) → ResolvesTo d r' s p.type) ∧
            (p.required = true ↔ d.Requires shape name) ∧
            (p.nullable = !p.required ↔ p.required = true ∨ (d.arena.get c).nullable = true)) ∧
    ∀ {c s requests}, d.IsNullUnion c s → .call (.node s) ∉ requests →
      ∀ u, (served d requests).Typed c u → ResolvesTo d (served d requests) s u := by
  have hd := forest_of_ofJson h
  refine ⟨fun {id shape path r t r'} hshape hnew ho => ?_, fun hunion hasked u hu =>
    resolvesTo_served hd hunion hasked hu⟩
  obtain ⟨info, hinfo, htable⟩ := tabulates_of_resolveNode hd hshape hnew ho
  refine ⟨info, hinfo, fun {name c s} hlast hunion => ?_⟩
  obtain ⟨p, hp, htold⟩ := htable.properties hlast
  refine ⟨p, hp, fun hbefore => ?_, htold.required, ?_⟩
  · have hid : id ≠ s :=
      Nat.ne_of_gt (Nat.lt_trans (hunion.lt hd) (lt_of_isLast hd hshape hlast))
    have hc : (outcome (resolveNode d path id) r).2.Typed c p.type := by
      rw [ho]
      exact htold.type
    have hresolves := resolvesTo_of_isNullUnion hd hunion hid hbefore hc
    rw [ho] at hresolves
    exact hresolves
  · rw [htold.nullable]
    cases p.required <;> simp

/-- A pet with a nickname of this schema. -/
def nicknamed (nickname : Assoc String Json) : Assoc String Json :=
  [("type", .str "object"), ("properties", .obj [("nickname", .obj nickname)])]

/-- The nickname is declared for the object, and it is not required. -/
theorem exists_nickname {nickname : Assoc String Json}
    (hid : d.arena.Holds (.obj (nicknamed nickname)) id) :
    ∃ shape c, d.objectShape? id = some shape ∧
      Assoc.IsLast (d.declarations shape) "nickname" c ∧ d.arena.Holds (.obj nickname) c ∧
      ¬ d.Requires shape "nickname" := by
  have hform : Schema.form (nicknamed nickname) = .object := rfl
  obtain ⟨shape, hshape⟩ := exists_objectShape? hid (.inl hform)
  have htold := told_of_objectShape? hid hshape
  have hproperties : Assoc.Alike d.arena.Holds [("nickname", .obj nickname)] shape.properties :=
    htold.properties
  have hallOf : List.Forall₂ d.arena.Holds [] shape.allOf := htold.allOf
  have hrequires := htold.requires_iff "nickname"
  obtain ⟨properties, required, allOf, additional⟩ := shape
  cases hallOf
  cases hproperties with
  | @cons _ member _ _ hmember hrest =>
    obtain ⟨name, c⟩ := member
    obtain ⟨rfl, hc⟩ := hmember
    cases hrest
    refine ⟨_, c, hshape, ⟨[], [], rfl, List.not_mem_nil⟩, hc, fun h => ?_⟩
    rcases hrequires.1 h with ⟨-, hlisted⟩ | ⟨inner, hinner, -⟩
    · exact List.not_mem_nil (hlisted : "nickname" ∈ [])
    · exact List.not_mem_nil (hinner : inner ∈ [])

/-- A text or null. -/
def textOrNull : Assoc String Json :=
  [("oneOf", .arr [.obj [("type", .str "string")], nullSchema])]

def withNickname (nickname : Assoc String Json) : Json :=
  Projection.documentWith [("Pet", nicknamed nickname)]

theorem get?_withNickname (nickname : Assoc String Json) :
    Assoc.get? (namedSchemas (withNickname nickname)) "Pet" = some (.obj (nicknamed nickname)) :=
  rfl

/-- A nickname that says once more that it may be null is nullable. -/
theorem null_union_property_nickname :
    ∃ d id t r' info p s, ofJson (withNickname (("nullable", .bool true) :: textOrNull)) = .ok d ∧
      outcome (resolveNode d [] id) {} = (.ok t, r') ∧ r'.graph.get? t = some info ∧
      Assoc.get? info.properties "nickname" = some p ∧
      d.arena.Holds (.obj [("type", .str "string")]) s ∧ ResolvesTo d r' s p.type ∧
      p.nullable = true := by
  obtain ⟨d, id, t, r', hd, hid, ho⟩ :=
    exists_call (get?_withNickname (("nullable", .bool true) :: textOrNull)) (by decide +kernel)
  obtain ⟨shape, c, hshape, hlast, hc, hnot⟩ := exists_nickname hid
  obtain ⟨s, hs, hunion⟩ := exists_isNullUnion hc (by decide +kernel) rfl (by decide) (.inl rfl)
  obtain ⟨info, hinfo, hproperties⟩ := (null_union_property hd).1 hshape rfl ho
  obtain ⟨p, hp, hresolves, hrequired, hnullable⟩ := hproperties hlast hunion
  have hoptional : p.required = false := Bool.eq_false_iff.2 fun h => hnot (hrequired.1 h)
  have hallowed : (d.arena.get c).nullable = true := hc.told.nullable.trans (by decide +kernel)
  have htype : ResolvesTo d r' s p.type := hresolves fun u hu => by cases hu
  refine ⟨d, id, t, r', info, p, s, hd, ho, hinfo, hp, hs, htype, ?_⟩
  rw [hnullable.2 (.inr hallowed), hoptional]
  rfl

/-- Without that, it is neither required nor nullable. -/
theorem nickname_not_nullable :
    ∃ d id t r' info p c s, ofJson (withNickname textOrNull) = .ok d ∧
      outcome (resolveNode d [] id) {} = (.ok t, r') ∧ r'.graph.get? t = some info ∧
      d.arena.Holds (.obj textOrNull) c ∧ d.IsNullUnion c s ∧
      Assoc.get? info.properties "nickname" = some p ∧ r'.Typed c p.type ∧
      p.required = false ∧ p.nullable = false := by
  obtain ⟨d, id, t, r', hd, hid, ho⟩ :=
    exists_call (get?_withNickname textOrNull) (by decide +kernel)
  obtain ⟨shape, c, hshape, hlast, hc, hnot⟩ := exists_nickname hid
  obtain ⟨s, hs, hunion⟩ := exists_isNullUnion hc (by decide +kernel) rfl (by decide) (.inl rfl)
  obtain ⟨info, hinfo, htable⟩ := tabulates_of_resolveNode (forest_of_ofJson hd) hshape rfl ho
  obtain ⟨p, hp, htold⟩ := htable.properties hlast
  have hforbidden : (d.arena.get c).nullable = false := hc.told.nullable.trans (by decide +kernel)
  refine ⟨d, id, t, r', info, p, c, s, hd, ho, hinfo, hc, hunion, hp, htold.type, ?_, ?_⟩
  · exact Bool.eq_false_iff.2 fun h => hnot (htold.required.1 h)
  · rw [htold.nullable, hforbidden]
    rfl

end Resolver

end TypedClient
