import Mathlib.Data.List.Forall2
import Mathlib.Data.Option.Basic
import TypedClient.Proofs.Resolution.Steps
import TypedClient.Proofs.Resolution.Unguarded
import TypedClient.Proofs.Types.Order

/-! Where the type of a node comes from. The document alone tells whether a node has the type of
something else or one of its own, and which nodes and names that type is made from. What is made is
said here as a relation between nodes and the types that a resolver has for them, without the order
in which it has come to them: a state is faithful to the document when every type that it has for a
node comes from where the document says. -/

namespace TypedClient

/-! ### Sources -/

/-- A property of an object, with the node of its type. -/
structure Field where
  node : NodeId
  nullable : Bool
  required : Bool
  description : Option String

def Field.property (f : Field) (type : TypeId) : Property :=
  { type, nullable := f.nullable, required := f.required, description := f.description }

/-- What makes the type of an object generic: it is a definition with its parameters, or another
definition applied to arguments; a record has arguments of its own, or the type of its values. -/
inductive Genericity where
  | plain
  | definition (arguments : List NodeId)
  | applied (definition : NodeId) (arguments : List NodeId)
  | keyed (arguments : List NodeId)
  | record (value : Option NodeId)

/-- What the type of an object is made from, where `start` is all that the object says of the type
itself. -/
structure Plan where
  start : TypeInfo
  base : Option NodeId
  fields : Assoc String Field
  generics : Genericity

/-- Where the type of a node comes from: it is that of a name or of another node, or it is made. -/
inductive Source where
  | any
  | builtin (name : String)
  | schema (name : String)
  | node (id : NodeId)
  | array (items : Option NodeId) (description : Option String)
  | enum (type : TypeInfo)
  | object (plan : Plan)

namespace Document

variable (d : Document)

/-- The base and the objects to merge of an `allOf`, when it has at most one base. -/
def merging? : List NodeId → Option (Option NodeId × List ObjectShape)
  | [] => some (none, [])
  | [m] => some (some m, [])
  | members =>
    match Resolver.sortMembers (Resolver.site d []) members with
    | .ok ([], plain) => some (none, plain)
    | .ok ([base], plain) => some (some base, plain)
    | _ => none

def field (required : List String) (p : String × NodeId) : String × Field :=
  (p.1, {
    node := p.2
    nullable := (d.arena.get p.2).nullable && !required.contains p.1
    required := required.contains p.1
    description := (d.arena.get p.2).description })

def genericity? (hints : TypeHints) (shape : ObjectShape) : Option Genericity :=
  if hints.isGenericType then
    if hints.isGenericTypeDefinition then some (.definition hints.genericArguments)
    else match hints.genericTypeDefinition with
      | some definition => some (.applied definition hints.genericArguments)
      | none => if shape.additional.isSome then some (.keyed hints.genericArguments) else none
  else match shape.additional with
    | none => some .plain
    | some .any => some (.record none)
    | some (.schema value) => some (.record (some value))

def objectType (schema : SchemaNode) : TypeInfo :=
  { TypeInfo.builtin "object" with
    isInterface := schema.hints.isInterface
    isGeneric := schema.hints.isGenericType
    isGenericDefinition := schema.hints.isGenericTypeDefinition
    isGenericParameter := schema.hints.isGenericParameter
    description := schema.description }

/-- The properties of an object and of those that are merged into it. -/
def fields (shape : ObjectShape) (merged : List ObjectShape) : Assoc String Field :=
  (Resolver.mergeProperties (merged ++ [shape])).map
    (d.field (shape.required ++ merged.flatMap ObjectShape.required))

def plan? (schema : SchemaNode) (shape : ObjectShape) : Option Plan :=
  match d.merging? shape.allOf, genericity? schema.hints shape with
  | some (base, merged), some generics =>
    some ⟨objectType schema, base, d.fields shape merged, generics⟩
  | _, _ => none

def enumType (schema : SchemaNode) (primitive : Primitive) (literals : List Json) : TypeInfo :=
  { TypeInfo.builtin (Resolver.primitiveName primitive none) with
    isEnum := true
    members := schema.hints.enumValues.getD (Resolver.literalMembers literals)
    description := schema.description }

/-- The source of the type of a node; a node that combines what cannot be combined has none. -/
def source? (id : NodeId) : Option Source :=
  let schema := d.arena.get id
  match schema.kind with
  | .empty => some .any
  | .reference name => some (.schema name)
  | .object shape => (d.plan? schema shape).map .object
  | .array items => some (.array items schema.description)
  | .primitive primitive format => some (.builtin (Resolver.primitiveName primitive format))
  | .enum primitive literals => some (.enum (enumType schema primitive literals))
  | .combination how members =>
    match d.sayingMembers members, how with
    | [], _ => some .any
    | [m], _ => some (.node m)
    | members, .allOf => (d.plan? schema { allOf := members }).map .object
    | _, _ => none

end Document

/-! ### Types made from a source -/

namespace Resolver

open Relation

/-- The resolver has this type for the node. -/
def Typed (r : Resolver) (id : NodeId) (t : TypeId) : Prop := Assoc.get? r.memo id = some t

theorem Typed.unique {r : Resolver} {id : NodeId} {t u : TypeId} (ht : r.Typed id t)
    (hu : r.Typed id u) : t = u :=
  Option.some.inj (ht.symm.trans hu)

end Resolver

def arrayType (element : TypeInfo) (id : TypeId) (description : Option String) : TypeInfo :=
  { TypeInfo.builtin (element.name ++ "[]") with
    isArray := true, element := some id, description }

/-- What an object becomes with these generics, and whether it may take the name of its schema. -/
inductive Genericity.Makes (r : Resolver) (t : TypeInfo) : Genericity → TypeInfo → Bool → Prop
  | plain : Makes r t .plain t true
  | definition {arguments : List NodeId} {types : List TypeId}
      (ha : List.Forall₂ r.Typed arguments types) :
      Makes r t (.definition arguments) { t with genericArguments := types } true
  | applied {definition : NodeId} {arguments : List NodeId} {u : TypeId} {types : List TypeId}
      (hd : r.Typed definition u) (ha : List.Forall₂ r.Typed arguments types) :
      Makes r t (.applied definition arguments)
        { t with
          isBuiltin := (r.graph.get u).isBuiltin
          name := (r.graph.get u).name
          genericDefinition := some u
          genericArguments := types }
        (!(r.graph.get u).isBuiltin)
  | keyed {arguments : List NodeId} {types : List TypeId}
      (ha : List.Forall₂ r.Typed arguments types) :
      Makes r t (.keyed arguments)
        { t with name := TypeGraph.recordName, genericArguments := types } false
  | openRecord {key : TypeId}
      (hk : Assoc.get? r.graph.intrinsics TypeGraph.stringName = some key) :
      Makes r t (.record none)
        { t with name := TypeGraph.recordName, isGeneric := true, genericArguments := [key, key] }
        false
  | record {value : NodeId} {key u : TypeId}
      (hk : Assoc.get? r.graph.intrinsics TypeGraph.stringName = some key)
      (hv : r.Typed value u) :
      Makes r t (.record (some value))
        { t with name := TypeGraph.recordName, isGeneric := true, genericArguments := [key, u] }
        false

/-- A property as it is made from a field. -/
def Resolver.MakesProperty (r : Resolver) (f : String × Field) (p : String × Property) : Prop :=
  ∃ t, r.Typed f.2.node t ∧ p = (f.1, f.2.property t)

/-- A new type that is made from a source, and whether it may take the name of its schema. -/
inductive Source.Makes (r : Resolver) : Source → TypeInfo → Bool → Prop
  | openArray {description : Option String} :
      Makes r (.array none description)
        (arrayType (r.graph.get TypeGraph.any) TypeGraph.any description) false
  | array {items : NodeId} {description : Option String} {u : TypeId} (h : r.Typed items u) :
      Makes r (.array (some items) description) (arrayType (r.graph.get u) u description) false
  | enum {t : TypeInfo} : Makes r (.enum t) t true
  | object {plan : Plan} {base : Option TypeId} {properties : Assoc String Property}
      {t : TypeInfo} {nameable : Bool} (hb : Option.Rel r.Typed plan.base base)
      (hp : List.Forall₂ r.MakesProperty plan.fields properties)
      (hg : plan.generics.Makes r { plan.start with properties, base } t nameable) :
      Makes r (.object plan) { t with fullName := t.name } nameable

/-- The type of something else that a source stands for. A reference that was cut stands for
`any`. -/
inductive Source.Passes (r : Resolver) : Source → TypeId → Prop
  | any : Passes r .any TypeGraph.any
  | builtin {name : String} {t : TypeId} (h : Assoc.get? r.graph.intrinsics name = some t) :
      Passes r (.builtin name) t
  | schema {name : String} {t : TypeId} (h : Assoc.get? r.registry name = some t) :
      Passes r (.schema name) t
  | cut {name : String} (h : r.cycles ≠ []) : Passes r (.schema name) TypeGraph.any
  | node {id : NodeId} {t : TypeId} (h : r.Typed id t) : Passes r (.node id) t

def TypeInfo.rename (t : TypeInfo) (name : TypeName) : TypeInfo :=
  { t with
    name := name.name, fullName := name.fullName, scope := name.scope, isBuiltin := false }

/-- A type made for a node takes the name of the schema that the node declares, if it may. -/
inductive Document.Titles (d : Document) (id : NodeId) : Bool → TypeInfo → TypeInfo → Prop
  | own {name : String} {parsed : TypeName} {t : TypeInfo}
      (hn : Assoc.get? d.schemas name = some id) (hp : TypeName.parse name = .ok parsed) :
      Titles d id true t (t.rename parsed)
  | kept {nameable : Bool} {t : TypeInfo} (h : nameable = true → ¬ d.Declares id) :
      Titles d id nameable t t

namespace Resolver

/-- The type was made for the node, from this source. -/
structure Made (d : Document) (r : Resolver) (id : NodeId) (source : Source) (made : TypeInfo)
    (nameable : Bool) (t : TypeId) : Prop where
  told : d.source? id = some source
  makes : source.Makes r made nameable
  titled : ∃ info, r.graph.get? t = some info ∧ d.Titles id nameable made info
  marked : Assoc.get? r.nameable t = if nameable then some id else none

/-- The type comes from where the document says. -/
def Comes (d : Document) (r : Resolver) (id : NodeId) (t : TypeId) : Prop :=
  (∃ source, d.source? id = some source ∧ source.Passes r t) ∨
    ∃ source made nameable, Made d r id source made nameable t

/-- A type that a node has is `any`, one that is looked up by its name, or made for some node. -/
def Rooted (d : Document) (r : Resolver) (t : TypeId) : Prop :=
  t = TypeGraph.any ∨ (∃ name, Assoc.get? r.graph.intrinsics name = some t) ∨
    ∃ id source made nameable, r.Typed id t ∧ Made d r id source made nameable t

/-- What holds between calls when none has failed: all types come from where the document says, and
the name of a schema has the type of the node that declares it as soon as the node has one. No type
is left that no node has. -/
structure Faithful (d : Document) (r : Resolver) : Prop where
  bounded : r.Bounded
  comes : ∀ {id t}, r.Typed id t → Comes d r id t
  rooted : ∀ {id t}, r.Typed id t → Rooted d r t
  declared : ∀ {name t}, Assoc.get? r.registry name = some t →
    ∃ root, Assoc.get? d.schemas name = some root ∧ r.Typed root t
  registered : ∀ {name root t}, Assoc.get? d.schemas name = some root → r.Typed root t →
    Assoc.get? r.registry name = some t
  nameable : ∀ {t id}, Assoc.get? r.nameable t = some id → r.Typed id t
  covered : ∀ {t}, t < r.graph.size → Rooted d r t

theorem faithful_initial (d : Document) : Faithful d {} where
  bounded := bounded_initial
  comes h := by cases h
  rooted h := by cases h
  declared h := by cases h
  registered _ h := by cases h
  nameable h := by cases h
  covered h := .inl (Nat.lt_one_iff.1 h)

/-! ### What stays -/

/-- What a call that gives a type keeps: whatever the resolver has had, types included. Nodes that
are held get no type. -/
structure Grows (held : NodeId → Prop) (r r' : Resolver) : Prop where
  size : r.graph.size ≤ r'.graph.size
  types : ∀ {t}, t < r.graph.size → r'.graph.get? t = r.graph.get? t
  intrinsics : ∀ {name t}, Assoc.get? r.graph.intrinsics name = some t →
    Assoc.get? r'.graph.intrinsics name = some t
  memo : ∀ {id t}, r.Typed id t → r'.Typed id t
  registry : ∀ {name t}, Assoc.get? r.registry name = some t → Assoc.get? r'.registry name = some t
  nameable : ∀ {t}, t < r.graph.size → Assoc.get? r'.nameable t = Assoc.get? r.nameable t
  cycles : r.cycles <+: r'.cycles
  pending : ∀ {id}, held id → Assoc.get? r'.memo id = Assoc.get? r.memo id

variable {d : Document} {held : NodeId → Prop} {r r' r'' : Resolver} {id : NodeId} {t : TypeId}

namespace Grows

theorem refl (r : Resolver) : Grows held r r :=
  ⟨Nat.le_refl _, fun _ => rfl, fun h => h, fun h => h, fun h => h, fun _ => rfl,
    List.prefix_refl _, fun _ => rfl⟩

theorem trans (h : Grows held r r') (h' : Grows held r' r'') : Grows held r r'' where
  size := Nat.le_trans h.size h'.size
  types ht := (h'.types (Nat.lt_of_lt_of_le ht h.size)).trans (h.types ht)
  intrinsics hn := h'.intrinsics (h.intrinsics hn)
  memo hm := h'.memo (h.memo hm)
  registry hn := h'.registry (h.registry hn)
  nameable ht := (h'.nameable (Nat.lt_of_lt_of_le ht h.size)).trans (h.nameable ht)
  cycles := h.cycles.trans h'.cycles
  pending hid := (h'.pending hid).trans (h.pending hid)

theorem mono {held' : NodeId → Prop} (hsub : ∀ id, held' id → held id) (h : Grows held r r') :
    Grows held' r r' :=
  ⟨h.size, h.types, h.intrinsics, h.memo, h.registry, h.nameable, h.cycles,
    fun hid => h.pending (hsub _ hid)⟩

theorem get (h : Grows held r r') (ht : t < r.graph.size) : r'.graph.get t = r.graph.get t := by
  rw [TypeGraph.get, TypeGraph.get, h.types ht]

theorem cycles_ne_nil (h : Grows held r r') (hc : r.cycles ≠ []) : r'.cycles ≠ [] := by
  intro hnil
  have hprefix := h.cycles
  rw [hnil] at hprefix
  exact hc (List.prefix_nil.1 hprefix)

end Grows

section Kept

variable (hg : Grows held r r')

include hg

theorem typed_all_kept {nodes : List NodeId} {types : List TypeId}
    (h : List.Forall₂ r.Typed nodes types) : List.Forall₂ r'.Typed nodes types :=
  h.imp fun _ _ => hg.memo

theorem typed_option_kept {node : Option NodeId} {type : Option TypeId}
    (h : Option.Rel r.Typed node type) : Option.Rel r'.Typed node type := by
  cases h with
  | none => exact .none
  | some h => exact .some (hg.memo h)

theorem properties_kept {fields : Assoc String Field} {properties : Assoc String Property}
    (h : List.Forall₂ r.MakesProperty fields properties) :
    List.Forall₂ r'.MakesProperty fields properties :=
  h.imp fun _ _ ⟨t, ht, hp⟩ => ⟨t, hg.memo ht, hp⟩

theorem genericity_kept (hb : r.Bounded) {generics : Genericity} {start made : TypeInfo}
    {nameable : Bool} (h : generics.Makes r start made nameable) :
    generics.Makes r' start made nameable := by
  cases h with
  | plain => exact .plain
  | definition ha => exact .definition (typed_all_kept hg ha)
  | applied hd ha =>
    rw [← hg.get (hb.memo hd)]
    exact .applied (hg.memo hd) (typed_all_kept hg ha)
  | keyed ha => exact .keyed (typed_all_kept hg ha)
  | openRecord hk => exact .openRecord (hg.intrinsics hk)
  | record hk hv => exact .record (hg.intrinsics hk) (hg.memo hv)

theorem makes_kept (hb : r.Bounded) {source : Source} {made : TypeInfo} {nameable : Bool}
    (h : source.Makes r made nameable) : source.Makes r' made nameable := by
  cases h with
  | openArray =>
    rw [← hg.get hb.any]
    exact .openArray
  | array h =>
    rw [← hg.get (hb.memo h)]
    exact .array (hg.memo h)
  | enum => exact .enum
  | object hbase hp hgenerics =>
    exact .object (typed_option_kept hg hbase) (properties_kept hg hp)
      (genericity_kept hg hb hgenerics)

theorem passes_kept {source : Source} (h : source.Passes r t) : source.Passes r' t := by
  cases h with
  | any => exact .any
  | builtin h => exact .builtin (hg.intrinsics h)
  | schema h => exact .schema (hg.registry h)
  | cut h => exact .cut (hg.cycles_ne_nil h)
  | node h => exact .node (hg.memo h)

theorem Made.kept (hb : r.Bounded) {source : Source} {made : TypeInfo} {nameable : Bool}
    (h : Made d r id source made nameable t) : Made d r' id source made nameable t := by
  obtain ⟨info, hinfo, htitles⟩ := h.titled
  have ht := TypeGraph.lt_size_of_get? hinfo
  exact ⟨h.told, makes_kept hg hb h.makes, ⟨info, (hg.types ht).trans hinfo, htitles⟩,
    (hg.nameable ht).trans h.marked⟩

theorem Comes.kept (hb : r.Bounded) (h : Comes d r id t) : Comes d r' id t := by
  rcases h with ⟨source, hs, hp⟩ | ⟨source, made, nameable, hm⟩
  · exact .inl ⟨source, hs, passes_kept hg hp⟩
  · exact .inr ⟨source, made, nameable, hm.kept hg hb⟩

theorem Rooted.kept (hb : r.Bounded) (h : Rooted d r t) : Rooted d r' t := by
  rcases h with h | ⟨name, h⟩ | ⟨id, source, made, nameable, ht, hm⟩
  · exact .inl h
  · exact .inr (.inl ⟨name, hg.intrinsics h⟩)
  · exact .inr (.inr ⟨id, source, made, nameable, hg.memo ht, hm.kept hg hb⟩)

end Kept

/-! ### States that stay faithful -/

/-- Types alone may be added. -/
theorem Faithful.of_grows (hf : Faithful d r) (hg : Grows held r r') (hb : r'.Bounded)
    (hmemo : r'.memo = r.memo) (hregistry : r'.registry = r.registry)
    (hnameable : r'.nameable = r.nameable)
    (hadded : ∀ {t}, t < r'.graph.size → t < r.graph.size ∨ Rooted d r' t) : Faithful d r' where
  bounded := hb
  comes h := (hf.comes (by rwa [Typed, hmemo] at h)).kept hg hf.bounded
  rooted h := (hf.rooted (by rwa [Typed, hmemo] at h)).kept hg hf.bounded
  declared h := by
    rw [hregistry] at h
    obtain ⟨root, hn, hr⟩ := hf.declared h
    exact ⟨root, hn, hg.memo hr⟩
  registered hn h := by
    rw [hregistry]
    exact hf.registered hn (by rwa [Typed, hmemo] at h)
  nameable h := by
    rw [hnameable] at h
    exact hg.memo (hf.nameable h)
  covered ht := (hadded ht).elim (fun ht => (hf.covered ht).kept hg hf.bounded) id

/-- A node gets its type, and with it the name of the schema that the node declares. -/
theorem Faithful.settle (hf : Faithful d r) (hg : Grows held r r') (hb : r'.Bounded)
    (hmemo : r'.memo = Assoc.put r.memo id t) (hnew : Assoc.get? r.memo id = none)
    (hcomes : Comes d r' id t) (hrooted : Rooted d r' t)
    (hregistry : ∀ {name u}, Assoc.get? r'.registry name = some u →
      Assoc.get? r.registry name = some u ∨ (Assoc.get? d.schemas name = some id ∧ u = t))
    (hown : ∀ {name}, Assoc.get? d.schemas name = some id → Assoc.get? r'.registry name = some t)
    (hnameable : ∀ {u node}, Assoc.get? r'.nameable u = some node →
      Assoc.get? r.nameable u = some node ∨ (u = t ∧ node = id))
    (hadded : ∀ {u}, u < r'.graph.size → u < r.graph.size ∨ u = t) : Faithful d r' := by
  have htyped : r'.Typed id t := by
    rw [Typed, hmemo]
    exact Assoc.get?_put_self ..
  have hcases : ∀ {node u}, r'.Typed node u → (node = id ∧ u = t) ∨ r.Typed node u := by
    intro node u h
    rw [Typed, hmemo, Assoc.get?_put] at h
    split at h
    · next heq =>
      cases h
      exact .inl ⟨heq.symm, rfl⟩
    · exact .inr h
  refine ⟨hb, fun h => ?_, fun h => ?_, fun {name u} h => ?_, fun {name root u} hn h => ?_,
    fun {u node} h => ?_, fun {u} hu => ?_⟩
  · rcases hcases h with ⟨rfl, rfl⟩ | h
    · exact hcomes
    · exact (hf.comes h).kept hg hf.bounded
  · rcases hcases h with ⟨rfl, rfl⟩ | h
    · exact hrooted
    · exact (hf.rooted h).kept hg hf.bounded
  · rcases hregistry h with h | ⟨hn, rfl⟩
    · obtain ⟨root, hn, hr⟩ := hf.declared h
      exact ⟨root, hn, hg.memo hr⟩
    · exact ⟨id, hn, htyped⟩
  · rcases hcases h with ⟨rfl, rfl⟩ | h
    · exact hown hn
    · exact hg.registry (hf.registered hn h)
  · rcases hnameable h with h | ⟨rfl, rfl⟩
    · exact hg.memo (hf.nameable h)
    · exact htyped
  · rcases hadded hu with hu | rfl
    · exact (hf.covered hu).kept hg hf.bounded
    · exact hrooted

end Resolver

end TypedClient
