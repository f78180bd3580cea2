import TypedClient.Json.Value

/-! Schema nodes. Every schema of a document, nested ones included, is one node of an arena; nodes
refer to each other by their position in it. A node has exactly one kind, whatever other keywords
its schema carries. -/

namespace TypedClient

/-- The position of a node in its arena. -/
abbrev NodeId := Nat

inductive Primitive where
  | string | number | integer | boolean
  deriving DecidableEq, Repr, Inhabited

namespace Primitive

def all : List Primitive := [.string, .number, .integer, .boolean]

def name : Primitive → String
  | .string => "string" | .number => "number" | .integer => "integer" | .boolean => "boolean"

def ofName? (s : String) : Option Primitive := all.find? fun p => p.name == s

end Primitive

/-- The three keywords that combine schemas. -/
inductive Combination where
  | allOf | anyOf | oneOf
  deriving DecidableEq, Repr, Inhabited

def Combination.name : Combination → String
  | .allOf => "allOf" | .anyOf => "anyOf" | .oneOf => "oneOf"

/-- A named constant of an enum. -/
structure EnumMember where
  key : String
  value : Int
  deriving DecidableEq, Repr, Inhabited

/-- What an object may hold beside its properties. -/
inductive Additional where
  | any
  | schema (node : NodeId)
  deriving DecidableEq, Repr

structure ObjectShape where
  properties : Assoc String NodeId := []
  required : List String := []
  allOf : List NodeId := []
  additional : Option Additional := none
  deriving Repr, Inhabited

inductive SchemaKind where
  | empty
  | reference (name : String)
  | object (shape : ObjectShape)
  | array (items : Option NodeId)
  | enum (primitive : Primitive) (literals : List Json)
  | primitive (primitive : Primitive) (format : Option String)
  | combination (how : Combination) (members : List NodeId)
  deriving Repr, Inhabited

/-- What typed servers add to a schema to say which class or generic type it came from. -/
structure TypeHints where
  isInterface : Option Bool := none
  isGenericType : Bool := false
  isGenericTypeDefinition : Bool := false
  isGenericParameter : Bool := false
  genericTypeDefinition : Option NodeId := none
  genericArguments : List NodeId := []
  enumValues : Option (List EnumMember) := none
  deriving Repr, Inhabited

structure SchemaNode where
  kind : SchemaKind := .empty
  description : Option String := none
  nullable : Bool := false
  hints : TypeHints := {}
  deriving Repr, Inhabited

namespace SchemaKind

def isEmpty : SchemaKind → Bool
  | .empty => true
  | _ => false

def isReference : SchemaKind → Bool
  | .reference _ => true
  | _ => false

/-- What a kind is called when it stands where it may not. -/
def label : SchemaKind → String
  | .empty => "empty"
  | .reference _ => "reference"
  | .object _ => "object with nested allOf"
  | .array _ => "array"
  | .enum .. => "enum"
  | .primitive .. => "primitive"
  | .combination .. => "composition"

/-- The nodes that a kind refers to. -/
def children : SchemaKind → List NodeId
  | .object shape =>
    shape.properties.map Prod.snd ++ shape.allOf ++
      (match shape.additional with
        | some (.schema node) => [node]
        | _ => [])
  | .array items => items.toList
  | .combination _ members => members
  | _ => []

end SchemaKind

/-- The nodes that a node refers to, in the order in which they were made. -/
def SchemaNode.children (node : SchemaNode) : List NodeId :=
  node.hints.genericTypeDefinition.toList ++ node.hints.genericArguments ++ node.kind.children

/-! ### The arena -/

/-- All nodes of one document, oldest first. -/
structure Arena where
  nodes : Array SchemaNode := #[]
  deriving Inhabited

namespace Arena

def size (a : Arena) : Nat := a.nodes.size

def get? (a : Arena) (id : NodeId) : Option SchemaNode := a.nodes[id]?

/-- The node under `id`; an empty one when there is none. -/
def get (a : Arena) (id : NodeId) : SchemaNode := (a.get? id).getD {}

/-- Adds a node at the end, which is where its position points. -/
def push (a : Arena) (node : SchemaNode) : Arena := ⟨a.nodes.push node⟩

theorem size_push (a : Arena) (node : SchemaNode) : (a.push node).size = a.size + 1 := by
  simp [push, size]

theorem get?_push (a : Arena) (node : SchemaNode) (id : NodeId) :
    (a.push node).get? id = if id = a.size then some node else a.get? id := by
  show (a.nodes.push node)[id]? = _
  rw [Array.getElem?_push]
  rfl

end Arena

end TypedClient
