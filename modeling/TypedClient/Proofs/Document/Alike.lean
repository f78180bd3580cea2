import TypedClient.Proofs.Client.Asked
import TypedClient.Proofs.Resolution.Source
import TypedClient.Proofs.Resolution.Walk
import TypedClient.Proofs.Schema.Matches

/-! Documents that say the same, each about nodes of its own arena. Related nodes say the same and
refer to related nodes, the same names stand for related nodes, and every operation has one like it
in the other document. So related nodes have the same source, and schemas follow each other alike;
the order in which schemas and operations stand plays no part. -/

namespace TypedClient

/-! ### Operations that say the same -/

structure Parameter.Matches (S : NodeId → NodeId → Prop) (p p' : Parameter) : Prop where
  place : p.place = p'.place
  schema : S p.schema p'.schema

def Body.Matches (S : NodeId → NodeId → Prop) (b b' : Body) : Prop :=
  Assoc.Alike S b.content b'.content

/-- Operations that carry schemas in the same places. -/
structure Operation.Matches (S : NodeId → NodeId → Prop) (o o' : Operation) : Prop where
  parameters : List.Forall₂ (Parameter.Matches S) o.parameters o'.parameters
  request : Option.Rel (Body.Matches S) o.request o'.request
  response : Option.Rel (Body.Matches S) o.response o'.response

namespace Client

variable {S : NodeId → NodeId → Prop}

theorem contentOf_matches [MediaType.Reading] {b b' : Body} (h : b.Matches S b')
    (kind : ContentKind) :
    Option.Rel S (contentOf? b kind) (contentOf? b' kind) := by
  unfold contentOf?
  unfold Body.Matches at h
  generalize b.content = content, b'.content = content' at h
  induction h with
  | nil => exact .none
  | cons hp _ ih =>
    rw [List.find?_cons, List.find?_cons, hp.1]
    split
    · exact .some hp.2
    · exact ih

theorem hasContent_matches [MediaType.Reading] {b b' : Body} (h : b.Matches S b')
    (kind : ContentKind) :
    hasContent b kind = hasContent b' kind := by
  have hcontent := contentOf_matches h kind
  unfold hasContent
  generalize contentOf? b kind = x, contentOf? b' kind = y at hcontent
  cases hcontent <;> rfl

theorem or_of_rel {x x' y y' : Option NodeId} (h : Option.Rel S x x') (h' : Option.Rel S y y') :
    Option.Rel S (x.or y) (x'.or y') := by
  cases h with
  | some hx => exact .some hx
  | none => exact h'

/-- Operations that match ask for related nodes. -/
theorem askedNodes_matches [MediaType.Reading] {o o' : Operation} (h : o.Matches S o') :
    List.Forall₂ S (askedNodes o) (askedNodes o') := by
  have hparameters : ∀ places, List.Forall₂ S (parameterNodes o places)
      (parameterNodes o' places) := by
    intro places
    unfold parameterNodes
    rw [List.forall₂_map_left_iff, List.forall₂_map_right_iff]
    exact (filter_of_forall₂ h.parameters fun p p' hp => by rw [hp.place]).imp
      fun p p' hp => hp.schema
  have hrequest : Option.Rel S (requestNode? o.request) (requestNode? o'.request) := by
    have hbody := h.request
    generalize o.request = b, o'.request = b' at hbody
    cases hbody with
    | none => exact .none
    | some hb => exact or_of_rel (contentOf_matches hb .json) (contentOf_matches hb .form)
  have hresponse : Option.Rel S (responseNode? o.response) (responseNode? o'.response) := by
    have hbody := h.response
    generalize o.response = b, o'.response = b' at hbody
    cases hbody with
    | none => exact .none
    | @some b b' hb =>
      unfold responseNode?
      simp only [Option.bind_some]
      rw [hasContent_matches hb]
      split
      · exact .none
      · exact or_of_rel (contentOf_matches hb .json) (contentOf_matches hb .anything)
  exact List.rel_append (hparameters _) (List.rel_append (hparameters _)
    (List.rel_append (toList_of_rel hrequest) (toList_of_rel hresponse)))

end Client

/-! ### Sources that say the same -/

structure Field.Matches (M : NodeId → NodeId → Prop) (f f' : Field) : Prop where
  node : M f.node f'.node
  nullable : f.nullable = f'.nullable
  required : f.required = f'.required
  description : f.description = f'.description

inductive Genericity.Matches (M : NodeId → NodeId → Prop) : Genericity → Genericity → Prop
  | plain : Matches M .plain .plain
  | definition {xs ys : List NodeId} (h : List.Forall₂ M xs ys) :
      Matches M (.definition xs) (.definition ys)
  | applied {x y : NodeId} {xs ys : List NodeId} (hd : M x y) (h : List.Forall₂ M xs ys) :
      Matches M (.applied x xs) (.applied y ys)
  | keyed {xs ys : List NodeId} (h : List.Forall₂ M xs ys) : Matches M (.keyed xs) (.keyed ys)
  | record {x y : Option NodeId} (h : Option.Rel M x y) : Matches M (.record x) (.record y)

structure Plan.Matches (M : NodeId → NodeId → Prop) (p p' : Plan) : Prop where
  start : p.start = p'.start
  base : Option.Rel M p.base p'.base
  fields : Assoc.Alike (Field.Matches M) p.fields p'.fields
  generics : p.generics.Matches M p'.generics

inductive Source.Matches (M : NodeId → NodeId → Prop) : Source → Source → Prop
  | any : Matches M .any .any
  | builtin (name : String) : Matches M (.builtin name) (.builtin name)
  | schema (name : String) : Matches M (.schema name) (.schema name)
  | node {x y : NodeId} (h : M x y) : Matches M (.node x) (.node y)
  | array {x y : Option NodeId} (description : Option String) (h : Option.Rel M x y) :
      Matches M (.array x description) (.array y description)
  | enum (t : TypeInfo) : Matches M (.enum t) (.enum t)
  | object {p p' : Plan} (h : p.Matches M p') : Matches M (.object p) (.object p')

/-! ### Documents -/

/-- Documents whose related nodes say the same, and whose names and operations stand for related
nodes. -/
structure Document.Alike (d d' : Document) (M : NodeId → NodeId → Prop) : Prop where
  node : ∀ {x x'}, M x x' → (d.arena.get x).Matches M (d'.arena.get x')
  root : ∀ {x x'}, M x x' → ∀ name,
    Assoc.get? d.schemas name = some x ↔ Assoc.get? d'.schemas name = some x'
  named : ∀ name, Option.Rel M (Assoc.get? d.schemas name) (Assoc.get? d'.schemas name)
  operation : ∀ o ∈ d.operations, ∃ o' ∈ d'.operations, o.Matches M o'
  operation' : ∀ o' ∈ d'.operations, ∃ o ∈ d.operations, o.Matches M o'

namespace Document

open Relation

variable {d d' : Document} {M : NodeId → NodeId → Prop} {x x' : NodeId}

theorem Alike.named_left (h : d.Alike d' M) {name : String} {root : NodeId}
    (hn : Assoc.get? d.schemas name = some root) :
    ∃ root', Assoc.get? d'.schemas name = some root' ∧ M root root' := by
  have hnamed := h.named name
  rw [hn] at hnamed
  generalize Assoc.get? d'.schemas name = other at hnamed
  cases hnamed with
  | some hM => exact ⟨_, rfl, hM⟩

theorem Alike.named_right (h : d.Alike d' M) {name : String} {root' : NodeId}
    (hn : Assoc.get? d'.schemas name = some root') :
    ∃ root, Assoc.get? d.schemas name = some root ∧ M root root' := by
  have hnamed := h.named name
  rw [hn] at hnamed
  generalize Assoc.get? d.schemas name = other at hnamed
  cases hnamed with
  | some hM => exact ⟨_, rfl, hM⟩

/-! ### Where resolution goes -/

section Next

variable (h : d.Alike d' M)

include h

theorem Alike.sayingMembers {members members' : List NodeId}
    (hm : List.Forall₂ M members members') :
    List.Forall₂ M (d.sayingMembers members) (d'.sayingMembers members') :=
  filter_of_forall₂ hm fun x x' hx => by
    rw [Resolver.isNullOnly, Resolver.isNullOnly, (h.node hx).nullable, (h.node hx).kind.isEmpty]

theorem Alike.baseNodes {members members' : List NodeId} (hm : List.Forall₂ M members members') :
    List.Forall₂ M (d.baseNodes members) (d'.baseNodes members') := by
  have hall := filter_of_forall₂ hm
    (p := fun m => (d.arena.get m).kind.isReference)
    (q := fun m => (d'.arena.get m).kind.isReference) fun x x' hx => (h.node hx).kind.isReference
  match hm with
  | .nil => exact hall
  | .cons hx .nil => exact .cons hx .nil
  | .cons _ (.cons _ _) => exact hall

theorem Alike.mergedShapes {members members' : List NodeId}
    (hm : List.Forall₂ M members members') :
    List.Forall₂ (ObjectShape.Matches M) (d.mergedShapes members) (d'.mergedShapes members') := by
  match hm with
  | .nil => exact .nil
  | .cons _ .nil => exact .nil
  | .cons hx (.cons hy hrest) =>
    refine List.rel_filterMap (fun x x' hx => ?_) (.cons hx (.cons hy hrest))
    have hkind := (h.node hx).kind
    generalize (d.arena.get x).kind = kind, (d'.arena.get x').kind = kind' at hkind
    cases hkind with
    | object hs => exact .some hs
    | empty | reference | array | enum | primitive | combination => exact .none

omit h in
theorem mergeProperties_matches {shapes shapes' : List ObjectShape}
    (hs : List.Forall₂ (ObjectShape.Matches M) shapes shapes') :
    Assoc.Alike M (Resolver.mergeProperties shapes) (Resolver.mergeProperties shapes') :=
  List.rel_foldl (fun _ _ hmerged _ _ hshape => hmerged.putAll hshape.properties) .nil hs

omit h in
theorem genericNodes_matches {hints hints' : TypeHints} {shape shape' : ObjectShape}
    (hh : hints.Matches M hints') (hs : shape.Matches M shape') :
    List.Forall₂ M (genericNodes hints shape) (genericNodes hints' shape') := by
  unfold genericNodes definitionNodes
  rw [hh.isGenericType, hh.isGenericTypeDefinition]
  split
  · split
    · exact hh.arguments
    · exact List.rel_append (toList_of_rel hh.definition) hh.arguments
  · have hadditional := hs.additional
    generalize shape.additional = a, shape'.additional = a' at hadditional
    rcases hadditional with ⟨_ | hx⟩ | _
    · exact .nil
    · exact .cons hx .nil
    · exact .nil

theorem Alike.objectNodes {hints hints' : TypeHints} {shape shape' : ObjectShape}
    (hh : hints.Matches M hints') (hs : shape.Matches M shape') :
    List.Forall₂ M (d.objectNodes hints shape) (d'.objectNodes hints' shape') :=
  List.rel_append (List.rel_append (h.baseNodes hs.allOf) (mergeProperties_matches
    (List.rel_append (h.mergedShapes hs.allOf) (.cons hs .nil))).values)
    (genericNodes_matches hh hs)

omit h in
/-- The shape of an object that has only members to combine. -/
theorem matches_of_allOf {members members' : List NodeId}
    (hm : List.Forall₂ M members members') :
    ObjectShape.Matches M { allOf := members } { allOf := members' } :=
  ⟨.nil, rfl, hm, .none⟩

theorem Alike.next (hx : M x x') : List.Forall₂ M (d.next x) (d'.next x') := by
  obtain ⟨hkind, -, -, hh⟩ := h.node hx
  unfold Document.next kindNodes
  generalize (d.arena.get x).kind = kind, (d'.arena.get x').kind = kind' at hkind
  cases hkind with
  | object hs => exact h.objectNodes hh hs
  | array hi => exact toList_of_rel hi
  | combination how hm =>
    dsimp only
    unfold combinationNodes
    have hsaying := h.sayingMembers hm
    generalize d.sayingMembers _ = saying, d'.sayingMembers _ = saying' at hsaying
    match hsaying with
    | .nil => exact .nil
    | .cons hx .nil => exact .cons hx .nil
    | .cons hx (.cons hy hrest) =>
      cases how with
      | allOf => exact h.objectNodes hh (matches_of_allOf (.cons hx (.cons hy hrest)))
      | anyOf | oneOf => exact .nil
  | empty | reference | enum | primitive => exact .nil

theorem Alike.refers (hx : M x x') (name : String) : d.Refers x name ↔ d'.Refers x' name := by
  have hkind := (h.node hx).kind
  unfold Refers
  generalize (d.arena.get x).kind = kind, (d'.arena.get x').kind = kind' at hkind
  cases hkind <;> simp

/-- Schemas of the other document follow each other in this one as well. -/
theorem Alike.follows {name other : String} (hf : d'.Follows name other) :
    d.Follows name other := by
  obtain ⟨id', ⟨root', hn', hw⟩, hrefers⟩ := hf
  obtain ⟨root, hn, hroot⟩ := h.named_right hn'
  suffices hlift : ∃ id, d.Within root id ∧ M id id' by
    obtain ⟨id, hid, hM⟩ := hlift
    exact ⟨id, ⟨root, hn, hid⟩, (h.refers hM other).2 hrefers⟩
  clear hrefers
  induction hw with
  | refl => exact ⟨root, .refl, hroot⟩
  | tail _ hc ih =>
    obtain ⟨y, hy, hM⟩ := ih
    obtain ⟨c, hc, hcM⟩ := exists_of_mem_right (h.next hM) hc
    exact ⟨c, hy.tail hc, hcM⟩

/-- Where no schema follows itself in this document, none does in the other. -/
theorem Alike.acyclic (hacyclic : ∀ name, ¬ TransGen d.Follows name name) (name : String) :
    ¬ TransGen d'.Follows name name :=
  fun hcycle => hacyclic name (TransGen.mono (fun _ _ hf => h.follows hf) _ _ hcycle)

end Next

/-! ### Sources -/

section Sources

variable (h : d.Alike d' M)

include h

theorem Alike.sortMembers {members members' : List NodeId}
    (hm : List.Forall₂ M members members') :
    ExceptAlike (fun sorted sorted' => List.Forall₂ M sorted.1 sorted'.1 ∧
        List.Forall₂ (ObjectShape.Matches M) sorted.2 sorted'.2)
      (Resolver.sortMembers (Resolver.site d []) members)
      (Resolver.sortMembers (Resolver.site d' []) members') := by
  induction hm with
  | nil => exact .ok ⟨.nil, .nil⟩
  | @cons x x' rest rest' hx _ ih =>
    rw [Resolver.sortMembers, Resolver.sortMembers]
    have hkind : ((Resolver.site d []).node x).kind.Matches M
        ((Resolver.site d' []).node x').kind := (h.node hx).kind
    generalize ((Resolver.site d []).node x).kind = kind,
      ((Resolver.site d' []).node x').kind = kind' at hkind
    generalize Resolver.sortMembers (Resolver.site d []) rest = sorted,
      Resolver.sortMembers (Resolver.site d' []) rest' = sorted' at ih
    cases hkind with
    | reference name =>
      cases ih with
      | error e e' => exact .error e e'
      | ok hs => exact .ok ⟨.cons hx hs.1, hs.2⟩
    | @object shape shape' hs =>
      have hempty : shape.allOf.isEmpty = shape'.allOf.isEmpty := by
        have hallOf := hs.allOf
        generalize shape.allOf = ms, shape'.allOf = ms' at hallOf
        cases hallOf <;> rfl
      dsimp only
      rw [hempty]
      split
      · cases ih with
        | error e e' => exact .error e e'
        | ok hsorted => exact .ok ⟨hsorted.1, .cons hs hsorted.2⟩
      · exact .error _ _
    | empty | array | enum | primitive | combination => exact .error _ _

theorem Alike.merging? {members members' : List NodeId}
    (hm : List.Forall₂ M members members') :
    Option.Rel (fun merging merging' => Option.Rel M merging.1 merging'.1 ∧
        List.Forall₂ (ObjectShape.Matches M) merging.2 merging'.2)
      (d.merging? members) (d'.merging? members') := by
  have hsorted := h.sortMembers hm
  match hm with
  | .nil => exact .some ⟨.none, .nil⟩
  | .cons hx .nil => exact .some ⟨.some hx, .nil⟩
  | .cons _ (.cons _ _) =>
    unfold Document.merging?
    dsimp only
    generalize Resolver.sortMembers (Resolver.site d []) _ = sorted,
      Resolver.sortMembers (Resolver.site d' []) _ = sorted' at hsorted
    cases hsorted with
    | error e e' => exact .none
    | @ok sorted sorted' hs =>
      obtain ⟨bases, plain⟩ := sorted
      obtain ⟨bases', plain'⟩ := sorted'
      obtain ⟨hbases, hplain⟩ := hs
      dsimp only at hbases hplain
      match hbases with
      | .nil =>
        dsimp only
        exact .some ⟨.none, hplain⟩
      | .cons hb .nil =>
        dsimp only
        exact .some ⟨.some hb, hplain⟩
      | .cons _ (.cons _ _) =>
        dsimp only
        exact .none

omit h in
theorem genericity?_matches {hints hints' : TypeHints} {shape shape' : ObjectShape}
    (hh : hints.Matches M hints') (hs : shape.Matches M shape') :
    Option.Rel (Genericity.Matches M) (genericity? hints shape) (genericity? hints' shape') := by
  have hnode := hh.definition
  have hadditional := hs.additional
  unfold genericity?
  rw [hh.isGenericType, hh.isGenericTypeDefinition]
  generalize hints.genericTypeDefinition = definition,
    hints'.genericTypeDefinition = definition' at hnode
  generalize shape.additional = additional, shape'.additional = additional' at hadditional
  split
  · split
    · exact .some (.definition hh.arguments)
    · cases hnode with
      | some hx => exact .some (.applied hx hh.arguments)
      | none =>
        rcases hadditional with ⟨_ | _⟩ | _
        · exact .some (.keyed hh.arguments)
        · exact .some (.keyed hh.arguments)
        · exact .none
  · rcases hadditional with ⟨_ | hx⟩ | _
    · exact .some (.record .none)
    · exact .some (.record (.some hx))
    · exact .some .plain

theorem Alike.field {required : List String} {name : String} (hx : M x x') :
    (d.field required (name, x)).2.Matches M (d'.field required (name, x')).2 := by
  obtain ⟨-, hdescription, hnullable, -⟩ := h.node hx
  refine ⟨hx, ?_, rfl, hdescription⟩
  show ((d.arena.get x).nullable && _) = ((d'.arena.get x').nullable && _)
  rw [hnullable]

theorem Alike.fields {shape shape' : ObjectShape} {merged merged' : List ObjectShape}
    (hs : shape.Matches M shape') (hm : List.Forall₂ (ObjectShape.Matches M) merged merged') :
    Assoc.Alike (Field.Matches M) (d.fields shape merged) (d'.fields shape' merged') := by
  have hrequired : shape.required ++ merged.flatMap ObjectShape.required =
      shape'.required ++ merged'.flatMap ObjectShape.required := by
    rw [hs.required, List.flatMap_def, List.flatMap_def,
      map_eq_of_forall₂ hm fun _ _ hshape => hshape.required]
  have hmembers : Assoc.Alike M (Resolver.mergeProperties (merged ++ [shape]))
      (Resolver.mergeProperties (merged' ++ [shape'])) :=
    mergeProperties_matches (List.rel_append hm (.cons hs .nil))
  unfold Document.fields Assoc.Alike
  rw [hrequired, List.forall₂_map_left_iff, List.forall₂_map_right_iff]
  refine List.Forall₂.imp (fun p p' hp => ?_) hmembers
  obtain ⟨name, x⟩ := p
  obtain ⟨name', x'⟩ := p'
  obtain ⟨rfl, hx⟩ := hp
  exact ⟨rfl, h.field hx⟩

theorem Alike.plan? {schema schema' : SchemaNode} {shape shape' : ObjectShape}
    (hn : schema.Matches M schema') (hs : shape.Matches M shape') :
    Option.Rel (Plan.Matches M) (d.plan? schema shape) (d'.plan? schema' shape') := by
  have hstart : objectType schema = objectType schema' := by
    unfold objectType
    rw [hn.description, hn.hints.isInterface, hn.hints.isGenericType,
      hn.hints.isGenericTypeDefinition, hn.hints.isGenericParameter]
  have hmerging := h.merging? hs.allOf
  have hgenerics := genericity?_matches hn.hints hs
  unfold Document.plan?
  generalize d.merging? shape.allOf = merging, d'.merging? shape'.allOf = merging' at hmerging
  generalize genericity? schema.hints shape = generics,
    genericity? schema'.hints shape' = generics' at hgenerics
  cases hmerging with
  | none => exact .none
  | @some merging merging' hm =>
    obtain ⟨base, merged⟩ := merging
    obtain ⟨base', merged'⟩ := merging'
    cases hgenerics with
    | none => exact .none
    | some hg => exact .some ⟨hstart, hm.1, h.fields hs hm.2, hg⟩

/-- Related nodes have the same source, or none. -/
theorem Alike.source? (hx : M x x') :
    Option.Rel (Source.Matches M) (d.source? x) (d'.source? x') := by
  have hn := h.node hx
  have hobject : ∀ {shape shape'}, ObjectShape.Matches M shape shape' →
      Option.Rel (Source.Matches M) ((d.plan? (d.arena.get x) shape).map .object)
        ((d'.plan? (d'.arena.get x') shape').map .object) := by
    intro shape shape' hs
    have hplan := h.plan? hn hs
    generalize d.plan? _ shape = plan, d'.plan? _ shape' = plan' at hplan
    cases hplan with
    | none => exact .none
    | some hp => exact .some (.object hp)
  have hkind := hn.kind
  unfold Document.source?
  dsimp only
  generalize (d.arena.get x).kind = kind, (d'.arena.get x').kind = kind' at hkind
  cases hkind with
  | empty => exact .some .any
  | reference name => exact .some (.schema name)
  | object hs => exact hobject hs
  | array hi =>
    dsimp only
    rw [hn.description]
    exact .some (.array _ hi)
  | primitive primitive format => exact .some (.builtin _)
  | enum primitive literals =>
    have htype : enumType (d.arena.get x) primitive literals =
        enumType (d'.arena.get x') primitive literals := by
      unfold enumType
      rw [hn.description, hn.hints.enumValues]
    dsimp only
    rw [htype]
    exact .some (.enum _)
  | combination how hm =>
    dsimp only
    have hsaying := h.sayingMembers hm
    generalize d.sayingMembers _ = saying, d'.sayingMembers _ = saying' at hsaying
    match hsaying with
    | .nil => exact .some .any
    | .cons hx .nil => exact .some (.node hx)
    | .cons hx (.cons hy hrest) =>
      cases how with
      | allOf => exact hobject (matches_of_allOf (.cons hx (.cons hy hrest)))
      | anyOf | oneOf => exact .none

end Sources

end Document

end TypedClient
