import TypedClient.Proofs.Alike
import TypedClient.Schema.Node

/-! Schema nodes that say the same, each about nodes of its own arena: all that a node says agrees,
and the nodes that it refers to are related, place by place. -/

namespace TypedClient

variable {S T : NodeId → NodeId → Prop}

inductive Additional.Matches (S : NodeId → NodeId → Prop) : Additional → Additional → Prop
  | any : Matches S .any .any
  | schema {x y : NodeId} (h : S x y) : Matches S (.schema x) (.schema y)

structure ObjectShape.Matches (S : NodeId → NodeId → Prop) (a b : ObjectShape) : Prop where
  properties : Assoc.Alike S a.properties b.properties
  required : a.required = b.required
  allOf : List.Forall₂ S a.allOf b.allOf
  additional : Option.Rel (Additional.Matches S) a.additional b.additional

inductive SchemaKind.Matches (S : NodeId → NodeId → Prop) : SchemaKind → SchemaKind → Prop
  | empty : Matches S .empty .empty
  | reference (name : String) : Matches S (.reference name) (.reference name)
  | object {a b : ObjectShape} (h : a.Matches S b) : Matches S (.object a) (.object b)
  | array {x y : Option NodeId} (h : Option.Rel S x y) : Matches S (.array x) (.array y)
  | enum (primitive : Primitive) (literals : List Json) :
      Matches S (.enum primitive literals) (.enum primitive literals)
  | primitive (primitive : Primitive) (format : Option String) :
      Matches S (.primitive primitive format) (.primitive primitive format)
  | combination (how : Combination) {xs ys : List NodeId} (h : List.Forall₂ S xs ys) :
      Matches S (.combination how xs) (.combination how ys)

/-- What the hints of a schema say without the nodes that they refer to. -/
def TypeHints.bare (h : TypeHints) : TypeHints :=
  { h with genericTypeDefinition := none, genericArguments := [] }

structure TypeHints.Matches (S : NodeId → NodeId → Prop) (a b : TypeHints) : Prop where
  bare : a.bare = b.bare
  definition : Option.Rel S a.genericTypeDefinition b.genericTypeDefinition
  arguments : List.Forall₂ S a.genericArguments b.genericArguments

structure SchemaNode.Matches (S : NodeId → NodeId → Prop) (a b : SchemaNode) : Prop where
  kind : a.kind.Matches S b.kind
  description : a.description = b.description
  nullable : a.nullable = b.nullable
  hints : a.hints.Matches S b.hints

/-! ### Weaker relations

It is enough that the relation holds of the nodes that are referred to. -/

theorem ObjectShape.Matches.imp {a b : ObjectShape} (h : a.Matches S b)
    (hST : ∀ x ∈ (SchemaKind.object a).children, ∀ y ∈ (SchemaKind.object b).children,
      S x y → T x y) : a.Matches T b where
  properties := forall₂_imp h.properties fun p hp q hq hpq => ⟨hpq.1, hST _
    (List.mem_append_left _ (List.mem_append_left _ (List.mem_map_of_mem hp))) _
    (List.mem_append_left _ (List.mem_append_left _ (List.mem_map_of_mem hq))) hpq.2⟩
  required := h.required
  allOf := forall₂_imp h.allOf fun x hx y hy => hST _
    (List.mem_append_left _ (List.mem_append_right _ hx)) _
    (List.mem_append_left _ (List.mem_append_right _ hy))
  additional := by
    obtain ⟨_, _, _, additional⟩ := a
    obtain ⟨_, _, _, additional'⟩ := b
    rcases h.additional with ⟨_ | hxy⟩ | _
    · exact .some .any
    · exact .some (.schema (hST _ (List.mem_append_right _ (.head _)) _
        (List.mem_append_right _ (.head _)) hxy))
    · exact .none

theorem SchemaKind.Matches.imp {a b : SchemaKind} (h : a.Matches S b)
    (hST : ∀ x ∈ a.children, ∀ y ∈ b.children, S x y → T x y) : a.Matches T b := by
  cases h with
  | empty => exact .empty
  | reference name => exact .reference name
  | object h => exact .object (h.imp hST)
  | array h => exact .array (rel_imp h hST)
  | enum primitive literals => exact .enum primitive literals
  | primitive primitive format => exact .primitive primitive format
  | combination how h => exact .combination how (forall₂_imp h hST)

theorem SchemaNode.Matches.imp {a b : SchemaNode} (h : a.Matches S b)
    (hST : ∀ x ∈ a.children, ∀ y ∈ b.children, S x y → T x y) : a.Matches T b where
  kind := h.kind.imp fun x hx y hy =>
    hST x (List.mem_append_right _ hx) y (List.mem_append_right _ hy)
  description := h.description
  nullable := h.nullable
  hints := {
    bare := h.hints.bare
    definition := rel_imp h.hints.definition fun x hx y hy =>
      hST x (List.mem_append_left _ (List.mem_append_left _ hx)) y
        (List.mem_append_left _ (List.mem_append_left _ hy))
    arguments := forall₂_imp h.hints.arguments fun x hx y hy =>
      hST x (List.mem_append_left _ (List.mem_append_right _ hx)) y
        (List.mem_append_left _ (List.mem_append_right _ hy)) }

namespace TypeHints.Matches

variable {a b : TypeHints} (h : a.Matches S b)

include h

theorem isInterface : a.isInterface = b.isInterface := (congrArg TypeHints.isInterface h.bare :)

theorem isGenericType : a.isGenericType = b.isGenericType :=
  (congrArg TypeHints.isGenericType h.bare :)

theorem isGenericTypeDefinition : a.isGenericTypeDefinition = b.isGenericTypeDefinition :=
  (congrArg TypeHints.isGenericTypeDefinition h.bare :)

theorem isGenericParameter : a.isGenericParameter = b.isGenericParameter :=
  (congrArg TypeHints.isGenericParameter h.bare :)

theorem enumValues : a.enumValues = b.enumValues := (congrArg TypeHints.enumValues h.bare :)

end TypeHints.Matches

namespace SchemaKind.Matches

variable {a b : SchemaKind} (h : a.Matches S b)

include h

theorem isEmpty : a.isEmpty = b.isEmpty := by
  cases h <;> rfl

theorem isReference : a.isReference = b.isReference := by
  cases h <;> rfl

theorem children : List.Forall₂ S a.children b.children := by
  cases h with
  | @object a b h =>
    obtain ⟨_, _, _, additional⟩ := a
    obtain ⟨_, _, _, additional'⟩ := b
    refine List.rel_append (List.rel_append h.properties.values h.allOf) ?_
    rcases h.additional with ⟨_ | hxy⟩ | _
    · exact .nil
    · exact .cons hxy .nil
    · exact .nil
  | array h => exact toList_of_rel h
  | combination how h => exact h
  | empty | reference | enum | primitive => exact .nil

end SchemaKind.Matches

theorem SchemaNode.Matches.children {a b : SchemaNode} (h : a.Matches S b) :
    List.Forall₂ S a.children b.children :=
  List.rel_append (List.rel_append (toList_of_rel h.hints.definition) h.hints.arguments)
    h.kind.children

end TypedClient
