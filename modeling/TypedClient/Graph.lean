import TypedClient.Text.Basic

/-! Finite directed graphs and their groups: the sets of nodes that reach each other along at least
one edge. A graph is a list of nodes and a function that gives the targets of a node's edges. Groups
are picked from its strongly connected components; how these are found is not decided here. -/

namespace TypedClient.Graph

open Relation

/-- There is an edge between the nodes. -/
def Edge (next : String → List String) (x y : String) : Prop := y ∈ next x

/-- All edges lead to nodes. -/
def Within (nodes : List String) (next : String → List String) : Prop :=
  ∀ ⦃x y⦄, Edge next x y → y ∈ nodes

/-- There are paths of at least one edge both ways. -/
def Together (next : String → List String) (x y : String) : Prop :=
  TransGen (Edge next) x y ∧ TransGen (Edge next) y x

/-- A way to split graphs into strongly connected components. -/
class Components where
  components : List String → (String → List String) → List (List String)

/-- Every node is in one component, with the nodes that it reaches and that reach it. The order of
components is not told, nor is that of the nodes of one. -/
class LawfulComponents [Components] : Prop where
  ne_nil : ∀ {nodes next component}, nodes.Nodup → Within nodes next →
    component ∈ Components.components nodes next → component ≠ []
  perm : ∀ {nodes next}, nodes.Nodup → Within nodes next →
    (Components.components nodes next).flatten.Perm nodes
  mem_iff : ∀ {nodes next component x y}, nodes.Nodup → Within nodes next →
    component ∈ Components.components nodes next → x ∈ component →
      (y ∈ component ↔ y = x ∨ Together next x y)

/-- Whether a component has a cycle: it has several nodes, or its one node has an edge to itself. -/
def isCyclic (next : String → List String) (component : List String) : Bool :=
  component.length > 1 || component.head?.any fun x => (next x).contains x

/-- The components with a cycle. They and their nodes are sorted. -/
def groups [Components] (nodes : List String) (next : String → List String) :
    List (List String) :=
  let cyclic := (Components.components nodes next).filter (isCyclic next)
  (cyclic.map Text.sort).mergeSort Text.precedesAll

end TypedClient.Graph
