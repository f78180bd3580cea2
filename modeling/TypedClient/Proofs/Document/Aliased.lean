import TypedClient.Proofs.Document.Alike
import TypedClient.Proofs.Document.Reading

/-! A schema that is nothing but a reference to another one is a second name for that one. In a
document with such a schema references may go by either name. When they are put back to the old
name, and the new one is dropped, only names of references have changed; so where resolution goes
from a node stays the same, and so does what its type comes from but for the name of a schema.
Where no schema followed itself before the new name was there, none does with it. -/

namespace TypedClient

open Relation

variable {a b : String}

/-! ### References to another name -/

/-- The name that stands for a name when `a` becomes `b`. -/
def renamed (a b name : String) : String := if name = a then b else name

theorem renamed_self : renamed a b a = b := if_pos rfl

theorem renamed_of_ne {name : String} (h : name ≠ a) : renamed a b name = name := if_neg h

def SchemaKind.redirect (a b : String) : SchemaKind → SchemaKind
  | .reference name => .reference (renamed a b name)
  | kind => kind

/-- A reference to `a` becomes one to `b`. -/
def SchemaNode.redirect (a b : String) (node : SchemaNode) : SchemaNode :=
  { node with kind := node.kind.redirect a b }

def Source.redirect (a b : String) : Source → Source
  | .schema name => .schema (renamed a b name)
  | source => source

namespace SchemaKind

variable (kind : SchemaKind)

theorem isEmpty_redirect : (kind.redirect a b).isEmpty = kind.isEmpty := by
  cases kind <;> rfl

theorem isReference_redirect : (kind.redirect a b).isReference = kind.isReference := by
  cases kind <;> rfl

end SchemaKind

theorem SchemaNode.redirect_of_ne {n : SchemaNode} (h : n.kind ≠ .reference a) :
    n.redirect a b = n := by
  obtain ⟨kind, description, nullable, hints⟩ := n
  cases kind with
  | reference name =>
    have hname : name ≠ a := fun heq => h (heq ▸ rfl)
    unfold SchemaNode.redirect SchemaKind.redirect
    dsimp only
    rw [renamed_of_ne hname]
  | empty | object | array | enum | primitive | combination => rfl

theorem SchemaNode.Matches.redirect {S : NodeId → NodeId → Prop} {n n' : SchemaNode}
    (h : n.Matches S n') : (n.redirect a b).Matches S (n'.redirect a b) where
  kind := by
    have hkind := h.kind
    unfold SchemaNode.redirect
    generalize n.kind = kind, n'.kind = kind' at hkind
    cases hkind with
    | empty => exact .empty
    | reference name => exact .reference _
    | object hs => exact .object hs
    | array hi => exact .array hi
    | enum primitive literals => exact .enum primitive literals
    | primitive primitive format => exact .primitive primitive format
    | combination how hm => exact .combination how hm
  description := h.description
  nullable := h.nullable
  hints := h.hints

theorem SchemaNode.children_redirect (n : SchemaNode) : (n.redirect a b).children = n.children := by
  obtain ⟨kind, description, nullable, hints⟩ := n
  cases kind <;> rfl

/-! ### Documents with references put back -/

namespace Document

/-- The document without the schema `fresh`, where references to it go to `target`. -/
def unaliased (d : Document) (fresh target : String) : Document :=
  { d with
    arena := ⟨d.arena.nodes.map (SchemaNode.redirect fresh target)⟩
    schemas := d.schemas.filter fun p => p.1 != fresh }

instance (d : Document) (x : NodeId) (name : String) : Decidable (d.Refers x name) :=
  match h : (d.arena.get x).kind with
  | .reference other =>
    decidable_of_iff (other = name) (by rw [Refers, h, SchemaKind.reference.injEq])
  | .empty | .object _ | .array _ | .enum _ _ | .primitive _ _ | .combination _ _ =>
    isFalse fun hrefers => by rw [Refers, h] at hrefers; cases hrefers

/-- Only the nodes that are there can refer to something. -/
theorem not_refers_of_lt {d : Document} {name : String}
    (h : ∀ x, x < d.arena.size → ¬ d.Refers x name) (x : NodeId) : ¬ d.Refers x name := by
  intro hrefers
  by_cases hx : x < d.arena.size
  · exact h x hx hrefers
  · rw [Refers, Arena.get_of_size_le (Nat.le_of_not_lt hx)] at hrefers
    cases hrefers

section Unaliased

variable (d : Document) {fresh target : String} {x : NodeId} {name : String}

theorem get_unaliased (fresh target : String) (x : NodeId) :
    (d.unaliased fresh target).arena.get x = (d.arena.get x).redirect fresh target := by
  unfold unaliased Arena.get Arena.get?
  rw [Array.getElem?_map]
  cases d.arena.nodes[x]? <;> rfl

theorem get?_unaliased (fresh target name : String) :
    Assoc.get? (d.unaliased fresh target).schemas name =
      if name != fresh then Assoc.get? d.schemas name else none :=
  Assoc.get?_filter d.schemas (fun key => key != fresh) name

variable {d} in
theorem get?_unaliased_eq_some {root : NodeId} :
    Assoc.get? (d.unaliased fresh target).schemas name = some root ↔
      name ≠ fresh ∧ Assoc.get? d.schemas name = some root := by
  rw [get?_unaliased]
  by_cases hname : name = fresh <;> simp [hname]

theorem sayingMembers_unaliased (members : List NodeId) :
    (d.unaliased fresh target).sayingMembers members = d.sayingMembers members := by
  refine List.filter_congr fun m _ => ?_
  rw [get_unaliased, Resolver.isNullOnly, Resolver.isNullOnly, SchemaNode.redirect,
    SchemaKind.isEmpty_redirect]

theorem baseNodes_unaliased (members : List NodeId) :
    (d.unaliased fresh target).baseNodes members = d.baseNodes members := by
  match members with
  | [] | [_] => rfl
  | m :: n :: ms =>
    rw [baseNodes_cons_cons, baseNodes_cons_cons]
    refine List.filter_congr fun m _ => ?_
    rw [get_unaliased, SchemaNode.redirect, SchemaKind.isReference_redirect]

theorem mergedShapes_unaliased (members : List NodeId) :
    (d.unaliased fresh target).mergedShapes members = d.mergedShapes members := by
  match members with
  | [] | [_] => rfl
  | m :: n :: ms =>
    unfold mergedShapes
    refine List.filterMap_congr fun m _ => ?_
    rw [get_unaliased, SchemaNode.redirect]
    cases (d.arena.get m).kind <;> rfl

theorem objectNodes_unaliased (hints : TypeHints) (shape : ObjectShape) :
    (d.unaliased fresh target).objectNodes hints shape = d.objectNodes hints shape := by
  rw [objectNodes, objectNodes, baseNodes_unaliased, mergedShapes_unaliased]

theorem combinationNodes_unaliased (hints : TypeHints) (how : Combination)
    (members : List NodeId) : (d.unaliased fresh target).combinationNodes hints how members =
      d.combinationNodes hints how members := by
  unfold combinationNodes
  rw [sayingMembers_unaliased]
  simp only [objectNodes_unaliased]

theorem wellFormed_unaliased {d : Document} (hd : d.WellFormed) :
    (d.unaliased fresh target).WellFormed := by
  have hsize : (d.unaliased fresh target).arena.size = d.arena.size := Array.size_map
  have hchildren : ∀ x, ((d.unaliased fresh target).arena.get x).children =
      (d.arena.get x).children := by
    intro x
    rw [get_unaliased, SchemaNode.children_redirect]
  have hnamed : ∀ {name root}, Assoc.get? (d.unaliased fresh target).schemas name = some root →
      Assoc.get? d.schemas name = some root := fun hn => (get?_unaliased_eq_some.1 hn).2
  refine ⟨⟨?_, ?_, ?_, ?_, ?_⟩, ?_, ?_⟩
  · intro x child hc
    rw [hchildren] at hc
    exact hd.forest.child_lt hc
  · intro x y child hx hy
    rw [hchildren] at hx hy
    exact hd.forest.parent_unique hx hy
  · intro name root hn
    rw [hsize]
    exact hd.forest.root_lt (hnamed hn)
  · intro name root x hn
    rw [hchildren]
    exact hd.forest.root_not_child (hnamed hn)
  · exact fun hn ho => hd.forest.name_unique (hnamed hn) (hnamed ho)
  · intro o ho id hid
    rw [hsize]
    exact hd.root_lt o ho id hid
  · intro o ho id hid
    obtain ⟨hroot, hchild⟩ := hd.apart o ho id hid
    refine ⟨fun name hn => hroot name (hnamed hn), fun x => ?_⟩
    rw [hchildren]
    exact hchild x

/-- Resolution goes to the same nodes. -/
theorem next_unaliased (x : NodeId) : (d.unaliased fresh target).next x = d.next x := by
  unfold next kindNodes
  rw [get_unaliased, SchemaNode.redirect]
  cases (d.arena.get x).kind with
  | object shape => exact d.objectNodes_unaliased _ shape
  | combination how members => exact d.combinationNodes_unaliased _ how members
  | empty | reference | array | enum | primitive => rfl

theorem within_unaliased {root : NodeId} :
    (d.unaliased fresh target).Within root x ↔ d.Within root x := by
  unfold Within
  simp only [next_unaliased]

variable {d} in
theorem Refers.unaliased (h : d.Refers x name) :
    (d.unaliased fresh target).Refers x (renamed fresh target name) := by
  rw [Refers, get_unaliased, SchemaNode.redirect, h]
  rfl

variable {d} in
theorem Refers.of_unaliased (h : (d.unaliased fresh target).Refers x name) :
    ∃ other, d.Refers x other ∧ name = renamed fresh target other := by
  rw [Refers, get_unaliased, SchemaNode.redirect] at h
  unfold Refers
  generalize (d.arena.get x).kind = kind at h
  cases kind with
  | reference other =>
    cases h
    exact ⟨other, rfl, rfl⟩
  | empty | object | array | enum | primitive | combination => cases h

variable {d} in
/-- A node that is a reference goes nowhere else. -/
theorem Refers.next_eq_nil (h : d.Refers x name) : d.next x = [] := by
  unfold next kindNodes
  rw [h]

variable {d} in
theorem Refers.source?_eq (h : d.Refers x name) : d.source? x = some (.schema name) := by
  unfold source?
  dsimp only
  rw [h]

/-! ### Sources -/

theorem sortMembers_unaliased (members : List NodeId) :
    Resolver.sortMembers (Resolver.site (d.unaliased fresh target) []) members =
      Resolver.sortMembers (Resolver.site d []) members := by
  induction members with
  | nil => rfl
  | cons m ms ih =>
    have hnode : (Resolver.site (d.unaliased fresh target) []).node m =
        ((Resolver.site d []).node m).redirect fresh target := d.get_unaliased fresh target m
    rw [Resolver.sortMembers, Resolver.sortMembers, hnode, SchemaNode.redirect, ih]
    cases ((Resolver.site d []).node m).kind <;> rfl

theorem merging?_unaliased (members : List NodeId) :
    (d.unaliased fresh target).merging? members = d.merging? members := by
  match members with
  | [] | [_] => rfl
  | m :: n :: ms =>
    unfold merging?
    dsimp only
    rw [sortMembers_unaliased]

theorem fields_unaliased (shape : ObjectShape) (merged : List ObjectShape) :
    (d.unaliased fresh target).fields shape merged = d.fields shape merged := by
  refine List.map_congr_left fun p _ => ?_
  rw [field, field, get_unaliased, SchemaNode.redirect]

theorem plan?_unaliased (schema : SchemaNode) (shape : ObjectShape) :
    (d.unaliased fresh target).plan? (schema.redirect fresh target) shape =
      d.plan? schema shape := by
  unfold plan?
  rw [merging?_unaliased]
  simp only [fields_unaliased]
  rfl

/-- The type of a node comes from the same, but for the name of a schema. -/
theorem source?_unaliased (x : NodeId) : (d.unaliased fresh target).source? x =
    (d.source? x).map (Source.redirect fresh target) := by
  have hobject : ∀ shape, ((d.unaliased fresh target).plan?
      ((d.arena.get x).redirect fresh target) shape).map Source.object =
      ((d.plan? (d.arena.get x) shape).map Source.object).map (Source.redirect fresh target) := by
    intro shape
    rw [plan?_unaliased, Option.map_map]
    rfl
  have hkind : ((d.arena.get x).redirect fresh target).kind =
      (d.arena.get x).kind.redirect fresh target := rfl
  unfold source?
  rw [get_unaliased]
  dsimp only
  rw [hkind]
  cases (d.arena.get x).kind with
  | object shape => exact hobject shape
  | combination how members =>
    dsimp only [SchemaKind.redirect]
    rw [sayingMembers_unaliased]
    rcases d.sayingMembers members with _ | ⟨m, _ | ⟨n, ms⟩⟩
    · rfl
    · rfl
    · cases how with
      | allOf => exact hobject _
      | anyOf | oneOf => rfl
  | empty | reference | array | enum | primitive => rfl

end Unaliased

end Document

/-! ### Another name for a schema -/

/-- The schema `fresh` is nothing but a reference to `target`. -/
def Document.IsAlias (d : Document) (fresh target : String) : Prop :=
  ∃ node, Assoc.get? d.schemas fresh = some node ∧ d.Refers node target

namespace Document

section IsAlias

variable {d : Document} {fresh target name other : String} (ha : d.IsAlias fresh target)
  (hne : target ≠ fresh)

theorem follows_of_unaliased (hf : (d.unaliased fresh target).Follows name other) :
    ∃ next, d.Follows name next ∧ other = renamed fresh target next := by
  obtain ⟨id, ⟨root, hroot, hw⟩, hrefers⟩ := hf
  obtain ⟨next, hnext, rfl⟩ := hrefers.of_unaliased
  exact ⟨next, ⟨id, ⟨root, (get?_unaliased_eq_some.1 hroot).2, (within_unaliased d).1 hw⟩, hnext⟩,
    rfl⟩

include ha

theorem IsAlias.follows : d.Follows fresh target :=
  let ⟨node, hnode, hrefers⟩ := ha
  ⟨node, ⟨node, hnode, .refl⟩, hrefers⟩

/-- The other name follows the schema only; what other schemas follow is told with the references
put back. -/
theorem IsAlias.follows_cases (hf : d.Follows name other) :
    (name = fresh ∧ other = target) ∨
      (d.unaliased fresh target).Follows (renamed fresh target name)
        (renamed fresh target other) := by
  obtain ⟨id, ⟨root, hroot, hw⟩, hrefers⟩ := hf
  by_cases hname : name = fresh
  · subst hname
    obtain ⟨node, hnode, hto⟩ := ha
    rw [hnode] at hroot
    cases hroot
    rcases hw.cases_head with rfl | ⟨c, hc, -⟩
    · rw [Refers, hto] at hrefers
      cases hrefers
      exact .inl ⟨rfl, rfl⟩
    · rw [hto.next_eq_nil] at hc
      cases hc
  · rw [renamed_of_ne hname]
    exact .inr ⟨id, ⟨root, get?_unaliased_eq_some.2 ⟨hname, hroot⟩, (within_unaliased d).2 hw⟩,
      hrefers.unaliased⟩

include hne

theorem IsAlias.transGen_follows (hf : TransGen d.Follows name other) :
    (name = fresh ∧ other = target) ∨
      TransGen (d.unaliased fresh target).Follows (renamed fresh target name)
        (renamed fresh target other) := by
  induction hf with
  | single hf => exact (ha.follows_cases hf).imp_right .single
  | tail _ hf ih =>
    rcases ha.follows_cases hf with ⟨rfl, rfl⟩ | hf
    · rcases ih with ⟨-, hother⟩ | ih
      · exact absurd hother.symm hne
      · rw [renamed_self] at ih
        rw [renamed_of_ne hne]
        exact .inr ih
    · rcases ih with ⟨rfl, rfl⟩ | ih
      · rw [renamed_of_ne hne] at hf
        rw [renamed_self]
        exact .inr (.single hf)
      · exact .inr (ih.tail hf)

/-- Where no schema follows itself with the references put back, none does. -/
theorem IsAlias.acyclic
    (hacyclic : ∀ name, ¬ TransGen (d.unaliased fresh target).Follows name name) (name : String) :
    ¬ TransGen d.Follows name name := by
  intro hcycle
  rcases ha.transGen_follows hne hcycle with ⟨hfresh, htarget⟩ | hcycle
  · exact hne (htarget.symm.trans hfresh)
  · exact hacyclic _ hcycle

/-- Where references come to an end, they do with the references put back. -/
theorem IsAlias.acc (h : Acc (fun other name => d.Follows name other) name) :
    Acc (fun other name => (d.unaliased fresh target).Follows name other)
      (renamed fresh target name) := by
  induction h with
  | intro name _ ih =>
    by_cases hname : name = fresh
    · have htarget := ih target (hname ▸ ha.follows)
      rw [renamed_of_ne hne] at htarget
      rwa [hname, renamed_self]
    · rw [renamed_of_ne hname]
      refine Acc.intro name fun other hf => ?_
      obtain ⟨next, hnext, rfl⟩ := follows_of_unaliased hf
      exact ih next hnext

end IsAlias

end Document

/-! ### Documents with and without the name -/

/-- Operations that say the same, each about nodes of its own arena. -/
structure Operation.Agrees (M : NodeId → NodeId → Prop) (o o' : Operation) : Prop where
  parameters : List.Forall₂ (fun p p' => M p.schema p'.schema ∧
    p' = { p with schema := p'.schema }) o.parameters o'.parameters
  request : Option.Rel (Body.Matches M) o.request o'.request
  response : Option.Rel (Body.Matches M) o.response o'.response
  same : o' = { o with
    parameters := o'.parameters, request := o'.request, response := o'.response }

theorem Operation.Agrees.matches {M : NodeId → NodeId → Prop} {o o' : Operation}
    (h : o.Agrees M o') : o.Matches M o' where
  parameters := h.parameters.imp fun _ _ hp => ⟨by rw [hp.2], hp.1⟩
  request := h.request
  response := h.response

theorem Operation.Agrees.imp {S T : NodeId → NodeId → Prop} {o o' : Operation} (h : o.Agrees S o')
    (hST : ∀ x ∈ o.roots, ∀ y ∈ o'.roots, S x y → T x y) : o.Agrees T o' where
  parameters := forall₂_imp h.parameters fun _ hp _ hp' hm => ⟨hST _
    (List.mem_append_left _ (List.mem_append_left _ (List.mem_map_of_mem hp))) _
    (List.mem_append_left _ (List.mem_append_left _ (List.mem_map_of_mem hp'))) hm.1, hm.2⟩
  request := (h.matches.imp hST).request
  response := (h.matches.imp hST).response
  same := h.same

/-- Documents that say the same, operations and tags in the same order, each about nodes of its own
arena. -/
structure Document.Agrees (d d' : Document) (M : NodeId → NodeId → Prop) : Prop where
  alike : d.Alike d' M
  operations : List.Forall₂ (Operation.Agrees M) d.operations d'.operations
  tags : d.tags = d'.tags

/-- In the second document `fresh` is another name for the schema `target`, and nothing else is
said than in the first one, which has no such name: references to the schema may go by either. -/
structure Document.Aliased (d d' : Document) (fresh target : String)
    (M : NodeId → NodeId → Prop) : Prop where
  isFresh : Assoc.get? d.schemas fresh = none
  isSchema : (Assoc.get? d.schemas target).isSome
  isAlias : d'.IsAlias fresh target
  agrees : d.Agrees (d'.unaliased fresh target) M

theorem Document.Aliased.ne {d d' : Document} {fresh target : String} {M : NodeId → NodeId → Prop}
    (h : d.Aliased d' fresh target M) : target ≠ fresh := by
  rintro rfl
  have htarget := h.isSchema
  rw [h.isFresh] at htarget
  cases htarget

end TypedClient
