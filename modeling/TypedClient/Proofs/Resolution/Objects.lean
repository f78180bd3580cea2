import TypedClient.Proofs.Overridden
import TypedClient.Proofs.Resolution.Advances
import TypedClient.Proofs.Resolution.OwnTypes

/-! The type of an object: its properties and its base. An object is resolved with the objects of
its `allOf` merged into it, whose properties stand before its own; a property that is declared again
takes over from those before it, in their place. A schema that has nothing but an `allOf`, of
several members, is resolved in the same way. Members that cannot be merged make the call fail
before anything else is resolved. -/

namespace TypedClient

open Resolver

namespace Document

variable (d : Document)

/-- The object that a node is resolved as: the one that it is, or one that has nothing but an
`allOf`, of several members that say something. -/
def objectShape? (id : NodeId) : Option ObjectShape :=
  match (d.arena.get id).kind with
  | .object shape => some shape
  | .combination .allOf members =>
    if 2 ≤ (d.sayingMembers members).length then some { allOf := d.sayingMembers members } else none
  | _ => none

/-- All properties that are declared for an object, with their nodes: those of the objects that are
merged into it, then its own. -/
def declarations (shape : ObjectShape) : Assoc String NodeId :=
  (d.mergedShapes shape.allOf ++ [shape]).flatMap ObjectShape.properties

/-- The object or one that is merged into it lists the property as required. -/
def Requires (shape : ObjectShape) (name : String) : Prop :=
  name ∈ shape.required ∨ ∃ other ∈ d.mergedShapes shape.allOf, name ∈ other.required

/-- Whether a member of an `allOf` of several is a reference or an object without an `allOf`. -/
def Mergeable (member : NodeId) : Prop :=
  (d.arena.get member).kind.isReference = true ∨
    ∃ shape, (d.arena.get member).kind = .object shape ∧ shape.allOf = []

/-- Several members, of which two are references, or one can be neither base nor merged. -/
structure Unmergeable (members : List NodeId) : Prop where
  several : 2 ≤ members.length
  odd : 2 ≤ (members.filter fun m => (d.arena.get m).kind.isReference).length ∨
    ∃ m ∈ members, ¬ d.Mergeable m

variable {d}

theorem kind_of_objectShape? {id : NodeId} {shape : ObjectShape}
    (h : d.objectShape? id = some shape) : (d.arena.get id).kind = .object shape ∨
      ∃ members, (d.arena.get id).kind = .combination .allOf members ∧
        2 ≤ (d.sayingMembers members).length ∧ shape = { allOf := d.sayingMembers members } := by
  unfold objectShape? at h
  split at h
  · next hk =>
    cases h
    exact .inl hk
  · next members hk =>
    split at h
    · next hseveral =>
      cases h
      exact .inr ⟨members, hk, hseveral, rfl⟩
    · cases h
  · cases h

end Document

namespace Resolver

variable {d : Document} {r r' : Resolver} {id : NodeId} {t : TypeId} {path : List String}
  {shape : ObjectShape}

/-! ### Properties -/

/-- What a property says, which the node declares for the object. -/
structure PropertyTold (d : Document) (r : Resolver) (shape : ObjectShape) (name : String)
    (node : NodeId) (p : Property) : Prop where
  type : r.Typed node p.type
  description : p.description = (d.arena.get node).description
  required : p.required = true ↔ d.Requires shape name
  nullable : p.nullable = ((d.arena.get node).nullable && !p.required)

/-- What the type of an object has of the object. -/
structure Tabulates (d : Document) (r : Resolver) (shape : ObjectShape) (info : TypeInfo) :
    Prop where
  /-- All properties that are declared are there, where each of them is declared first. -/
  names : Assoc.keys info.properties = (Assoc.keys (d.declarations shape)).eraseDups
  /-- Each is what its last declaration says. -/
  properties : ∀ {name node}, Assoc.IsLast (d.declarations shape) name node →
    ∃ p, Assoc.get? info.properties name = some p ∧ PropertyTold d r shape name node p
  base : List.Forall₂ r.Typed (d.baseNodes shape.allOf) info.base.toList

/-- The fields of an object, with the types of their nodes, are its properties. -/
theorem told_of_makesProperty {properties : Assoc String Property}
    (h : List.Forall₂ r.MakesProperty (d.fields shape (d.mergedShapes shape.allOf)) properties) :
    Assoc.keys properties = (Assoc.keys (d.declarations shape)).eraseDups ∧
      ∀ {name node}, Assoc.IsLast (d.declarations shape) name node →
        ∃ p, Assoc.get? properties name = some p ∧ PropertyTold d r shape name node p := by
  rw [Document.fields, List.forall₂_map_left_iff,
    Document.mergeProperties_eq] at h
  have hkeys : Assoc.keys (Assoc.ofPairs (d.declarations shape)) = Assoc.keys properties :=
    map_eq_of_forall₂ h fun _ _ ⟨_, _, hp⟩ => by rw [hp]; rfl
  refine ⟨by rw [← hkeys, Assoc.keys_ofPairs], fun {name node} hlast => ?_⟩
  have hdeclared : (name, node) ∈ Assoc.ofPairs (d.declarations shape) := Assoc.mem_ofPairs.2 hlast
  obtain ⟨⟨_, p⟩, hmem, u, hu, hp⟩ := exists_of_mem_left h hdeclared
  cases hp
  refine ⟨_, Assoc.get?_of_mem ?_ hmem, hu, rfl, ?_, rfl⟩
  · rw [← hkeys]
    exact Assoc.nodup_keys_ofPairs _
  · simp [Field.property, Document.field, Document.Requires]

/-- Every property of the table is required as the object says. -/
theorem Tabulates.required_iff {info : TypeInfo} (h : Tabulates d r shape info)
    {p : String × Property} (hp : p ∈ info.properties) :
    p.2.required = true ↔ d.Requires shape p.1 := by
  have hname : p.1 ∈ Assoc.keys info.properties := List.mem_map_of_mem hp
  have hnodup : (Assoc.keys info.properties).Nodup := h.names ▸ nodup_eraseDups _
  rw [h.names, List.mem_eraseDups] at hname
  obtain ⟨node, hlast⟩ := Assoc.exists_isLast hname
  obtain ⟨told, htold, hproperty⟩ := h.properties hlast
  rw [Assoc.get?_of_mem hnodup hp] at htold
  cases htold
  exact hproperty.required

/-- What is declared last for a property is resolved for the object. -/
theorem mem_objectNodes_of_isLast (hints : TypeHints) {name : String} {node : NodeId}
    (h : Assoc.IsLast (d.declarations shape) name node) : node ∈ d.objectNodes hints shape := by
  have hdeclared : (name, node) ∈ Assoc.ofPairs (d.declarations shape) := Assoc.mem_ofPairs.2 h
  refine List.mem_append_left _ (List.mem_append_right _ ?_)
  rw [Document.mergeProperties_eq]
  exact List.mem_map_of_mem hdeclared

/-- The table stands where the nodes that are resolved for the object keep their types. -/
theorem Tabulates.of_typed {info : TypeInfo} (h : Tabulates d r shape info) (hints : TypeHints)
    (hkept : ∀ c ∈ d.objectNodes hints shape, ∀ u, r.Typed c u → r'.Typed c u) :
    Tabulates d r' shape info where
  names := h.names
  properties {name node} hlast := by
    obtain ⟨p, hp, htold⟩ := h.properties hlast
    exact ⟨p, hp, hkept node (mem_objectNodes_of_isLast hints hlast) _ htold.type,
      htold.description, htold.required, htold.nullable⟩
  base := forall₂_imp h.base fun _ hc _ _ hu =>
    hkept _ (List.mem_append_left _ (List.mem_append_left _ hc)) _ hu

/-- The base of an `allOf` that can be merged is the type of the node that is resolved for it. -/
theorem baseNodes_of_merging? {members : List NodeId} {base : Option NodeId}
    {merged : List ObjectShape} (h : d.merging? members = some (base, merged)) :
    d.baseNodes members = base.toList := by
  match members with
  | [] =>
    cases h
    rfl
  | [m] =>
    cases h
    rfl
  | m :: n :: ms =>
    unfold Document.merging? at h
    rw [Document.baseNodes_cons_cons]
    dsimp only at h
    split at h
    · next hs =>
      cases h
      exact (sortMembers_ok hs).1.symm
    · next hs =>
      cases h
      exact (sortMembers_ok hs).1.symm
    · cases h

/-! ### Calls for objects -/

/-- What makes an object generic leaves its properties and its base alone. -/
theorem same_of_applyGenerics {s : Site Resolving} {hints : TypeHints} {start made : TypeInfo}
    {nameable : Bool}
    (ho : outcome (applyGenerics s hints shape start) r = (.ok (made, nameable), r')) :
    made.properties = start.properties ∧ made.base = start.base := by
  have hdefinition : ∀ {r r' applied},
      outcome (applyDefinition s hints shape start) r = (.ok applied, r') →
        applied.1.properties = start.properties ∧ applied.1.base = start.base := by
    intro r r' applied ho
    unfold applyDefinition at ho
    split at ho
    · cases ho
      exact ⟨rfl, rfl⟩
    · split at ho
      · obtain ⟨u, r₁, -, ho⟩ := outcome_bind_eq_ok.1 ho
        cases ho
        exact ⟨rfl, rfl⟩
      · split at ho
        · cases ho
          exact ⟨rfl, rfl⟩
        · cases ho
  unfold applyGenerics at ho
  split at ho
  · obtain ⟨applied, r₁, happlied, ho⟩ := outcome_bind_eq_ok.1 ho
    obtain ⟨types, r₂, -, ho⟩ := outcome_bind_eq_ok.1 ho
    cases ho
    exact hdefinition happlied
  · split at ho
    · cases ho
      exact ⟨rfl, rfl⟩
    · obtain ⟨key, r₁, -, ho⟩ := outcome_bind_eq_ok.1 ho
      obtain ⟨value, r₂, -, ho⟩ := outcome_bind_eq_ok.1 ho
      cases ho
      exact ⟨rfl, rfl⟩

theorem recalls_of_applyGenerics (hd : d.Forest) {hints : TypeHints} {start : TypeInfo}
    {applied : TypeInfo × Bool}
    (ho : outcome (applyGenerics (site d path) hints shape start) r = (.ok applied, r')) :
    Recalls r r' := by
  have hgoing := going_advances fun _ _ => True
  have hchildren : hgoing.inStep.Children (site d path) (resolveNode d path)
      (Document.genericNodes hints shape) :=
    hgoing.children fun c _ => advances_node hd (fun _ => trivial) path c
  have hasks : hgoing.inStep.Asks _ (applyGenerics (site d path) hints shape start)
      (applyGenerics ((site d path).onto (resolveNode d path) (resolveReference d path)) hints shape
        start) := InStep.asks_generics hchildren
  have hadvances := hasks.1 r
  rw [ho] at hadvances
  exact hadvances.toRecalls

theorem tabulates_of_resolveObject (hd : d.Forest) {schema : SchemaNode}
    (ho : outcome (resolveObject (site d path) id schema shape) r = (.ok t, r')) :
    ∃ info, r'.graph.get? t = some info ∧ Tabulates d r' shape info := by
  unfold resolveObject at ho
  obtain ⟨⟨base, merged⟩, r₁, hallOf, ho⟩ := outcome_bind_eq_ok.1 ho
  obtain ⟨-, -, node, hmerging, hbase⟩ :=
    supplies_allOf keeping_recalls (supplies_node hd path _) trivial hallOf
  have hbaseNodes : d.baseNodes shape.allOf = node.toList := baseNodes_of_merging? hmerging
  cases Document.merging?_merged hmerging
  obtain ⟨properties, r₂, hproperties, ho⟩ := outcome_bind_eq_ok.1 ho
  obtain ⟨-, hkept₂, hmade⟩ :=
    supplies_properties keeping_recalls (supplies_node hd path _) trivial hproperties
  obtain ⟨⟨made, nameable⟩, r₃, hgenerics, ho⟩ := outcome_bind_eq_ok.1 ho
  obtain ⟨hsame, hsamebase⟩ := same_of_applyGenerics hgenerics
  have hkept₃ := recalls_of_applyGenerics hd hgenerics
  have hfields : List.Forall₂ r₃.MakesProperty (d.fields shape (d.mergedShapes shape.allOf))
      properties := hmade.imp fun _ _ ⟨u, hu, hp⟩ => ⟨u, hkept₃.memo hu, hp⟩
  obtain ⟨hnames, htold⟩ := told_of_makesProperty hfields
  have htable : Tabulates d r₃ shape { made with fullName := made.name } := by
    refine ⟨?_, ?_, ?_⟩
    · show Assoc.keys made.properties = _
      rw [hsame]
      exact hnames
    · show ∀ {name node}, _ → ∃ p, Assoc.get? made.properties name = some p ∧ _
      rw [hsame]
      exact htold
    · show List.Forall₂ r₃.Typed _ made.base.toList
      rw [hsamebase, hbaseNodes]
      exact (toList_of_rel hbase).imp fun _ _ hu => hkept₃.memo (hkept₂.memo hu)
  -- the type is added last, and no node gets a type by that
  obtain ⟨type, r₄, hinsert, ho⟩ := outcome_bind_eq_ok.1 ho
  cases hinsert
  have hadded := (r₃.graph.get?_insert { made with fullName := made.name } r₃.graph.size).trans
    (if_pos rfl)
  cases nameable with
  | true =>
    obtain ⟨_, r₅, hmark, ho⟩ := outcome_bind_eq_ok.1 ho
    cases hmark
    cases ho
    exact ⟨_, hadded, htable.of_typed schema.hints fun _ _ _ hu => hu⟩
  | false =>
    cases ho
    exact ⟨_, hadded, htable.of_typed schema.hints fun _ _ _ hu => hu⟩

/-! ### Nodes -/

theorem exists_cons_cons {members : List NodeId} (h : 2 ≤ members.length) :
    ∃ m n ms, members = m :: n :: ms := by
  rcases members with _ | ⟨m, _ | ⟨n, ms⟩⟩
  · simp at h
  · simp at h
  · exact ⟨m, n, ms, rfl⟩

theorem resolveKind_eq_resolveObject {s : Site Resolving}
    (hshape : s.document.objectShape? id = some shape) :
    resolveKind s id = resolveObject s id (s.node id) shape := by
  unfold resolveKind
  simp only [Site.node]
  rcases Document.kind_of_objectShape? hshape with hk | ⟨members, hk, hseveral, rfl⟩
  · rw [hk]
  · rw [hk]
    dsimp only
    unfold resolveCombination
    unfold Document.sayingMembers at hseveral ⊢
    simp only [Site.node]
    generalize members.filter (fun m => !isNullOnly (s.document.arena.get m)) = saying at hseveral ⊢
    obtain ⟨m, n, ms, rfl⟩ := exists_cons_cons hseveral
    rfl

theorem next_of_objectShape? (hshape : d.objectShape? id = some shape) :
    d.next id = d.objectNodes (d.arena.get id).hints shape := by
  unfold Document.next Document.kindNodes
  rcases Document.kind_of_objectShape? hshape with hk | ⟨members, hk, hseveral, rfl⟩
  · rw [hk]
  · rw [hk]
    dsimp only
    unfold Document.combinationNodes
    generalize d.sayingMembers members = saying at hseveral ⊢
    obtain ⟨m, n, ms, rfl⟩ := exists_cons_cons hseveral
    rfl

/-- The type that an object comes to has what its table says, whatever has been resolved before. -/
theorem tabulates_of_resolveNode (hd : d.Forest) (hshape : d.objectShape? id = some shape)
    (hnew : Assoc.get? r.memo id = none)
    (ho : outcome (resolveNode d path id) r = (.ok t, r')) :
    ∃ info, r'.graph.get? t = some info ∧ Tabulates d r' shape info := by
  rcases outcome_resolveNode hd path id r with
    ⟨u, hm, -⟩ | ⟨-, ⟨e, r₁, -, h⟩ | ⟨u, r₁, hmade, h⟩⟩
  · rw [hnew] at hm
    cases hm
  · rw [h] at ho
    cases ho
  · rw [h] at ho
    cases ho
    rw [resolveKind_eq_resolveObject hshape] at hmade
    obtain ⟨info, hinfo, htable⟩ := tabulates_of_resolveObject hd hmade
    refine ⟨info, hinfo, htable.of_typed (d.arena.get id).hints fun c hc u hu => ?_⟩
    -- what is resolved for a node is older, so its type is not that of the node
    rw [← next_of_objectShape? hshape] at hc
    have hlt : c < id := hd.next_lt hc
    exact (Assoc.get?_put_of_ne (Nat.ne_of_gt hlt) ..).trans hu

/-! ### Members that cannot be merged -/

theorem mergeable_of_sortMembers {s : Site Resolving} {members : List NodeId}
    {sorted : List NodeId × List ObjectShape} (h : sortMembers s members = .ok sorted) :
    ∀ m ∈ members, s.document.Mergeable m := by
  induction members generalizing sorted with
  | nil => exact fun _ hm => absurd hm List.not_mem_nil
  | cons m ms ih =>
    have hrest : ∀ {f : List NodeId × List ObjectShape → List NodeId × List ObjectShape},
        (sortMembers s ms).map f = .ok sorted → ∀ m ∈ ms, s.document.Mergeable m := by
      intro f hf
      cases hs : sortMembers s ms with
      | error fault =>
        rw [hs] at hf
        cases hf
      | ok sorted' => exact ih hs
    unfold Document.Mergeable at *
    rw [sortMembers, Site.node] at h
    rw [List.forall_mem_cons]
    split at h
    · next name hk => exact ⟨.inl (by rw [hk]; rfl), hrest h⟩
    · next shape hk =>
      split at h
      · next hempty => exact ⟨.inr ⟨shape, hk, List.isEmpty_iff.1 hempty⟩, hrest h⟩
      · cases h
    · cases h

theorem resolveAllOf_of_unmergeable {s : Site Resolving} {members : List NodeId}
    (h : s.document.Unmergeable members) :
    ∃ fault, resolveAllOf s members = s.unsupported fault := by
  obtain ⟨hseveral, hodd⟩ := h
  obtain ⟨m, n, ms, rfl⟩ := exists_cons_cons hseveral
  unfold resolveAllOf
  dsimp only
  cases hs : sortMembers s (m :: n :: ms) with
  | error fault => exact ⟨fault, rfl⟩
  | ok sorted =>
    obtain ⟨bases, plain⟩ := sorted
    have hbases : 2 ≤ bases.length := by
      rw [(sortMembers_ok hs).1]
      refine hodd.resolve_right ?_
      rintro ⟨member, hmember, hnot⟩
      exact hnot (mergeable_of_sortMembers hs member hmember)
    obtain ⟨base, other, rest, rfl⟩ := exists_cons_cons hbases
    exact ⟨_, rfl⟩

/-- The call fails at once, and leaves the state as it was. -/
theorem resolveObject_of_unmergeable {s : Site Resolving} (h : s.document.Unmergeable shape.allOf)
    (id : NodeId) (schema : SchemaNode) (r : Resolver) : ∃ fault,
      outcome (resolveObject s id schema shape) r =
        (.error (.unsupportedCombination s.location fault), r) := by
  obtain ⟨fault, hfault⟩ := resolveAllOf_of_unmergeable h
  refine ⟨fault, ?_⟩
  unfold resolveObject
  rw [hfault]
  rfl

theorem outcome_of_unmergeable (hd : d.Forest) (hshape : d.objectShape? id = some shape)
    (hbad : d.Unmergeable shape.allOf) (hnew : Assoc.get? r.memo id = none) : ∃ fault,
      outcome (resolveNode d path id) r =
        (.error (.unsupportedCombination (site d path).location fault), r) := by
  obtain ⟨fault, hfail⟩ := resolveObject_of_unmergeable (s := site d path) hbad id
    (d.arena.get id) r
  refine ⟨fault, outcome_resolveNode_of_error hd hnew ?_⟩
  rw [resolveKind_eq_resolveObject (s := site d path) hshape]
  exact hfail

/-- Such an object gets no type, whatever is asked of the resolver. -/
theorem not_typed_of_unmergeable (hd : d.Forest) (hshape : d.objectShape? id = some shape)
    (hbad : d.Unmergeable shape.allOf) (requests : List Request) :
    Assoc.get? (served d requests).memo id = none := by
  have hdemands : Demands d fun id _ => ∀ shape, d.objectShape? id = some shape →
      ¬ d.Unmergeable shape.allOf := by
    intro path id r t r' ho shape hshape hbad
    rw [resolveKind_eq_resolveObject (s := site d path) hshape] at ho
    obtain ⟨fault, hfail⟩ := resolveObject_of_unmergeable (s := site d path) hbad id
      ((site d path).node id) r
    rw [hfail] at ho
    cases ho
  cases hm : Assoc.get? (served d requests).memo id with
  | none => rfl
  | some t => exact absurd hbad (holds_of_typed hd hdemands hm shape hshape)

end Resolver

end TypedClient
