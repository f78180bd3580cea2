import TypedClient.Client.Action
import TypedClient.Route
import TypedClient.Failure

/-! The tree of a client's routes. An action stands under the segments of its path before the last
one, by its name. Names are unique in each place: a name that is taken gets the smallest free
number, before an `Async` at its end. A tree is laid out in at most two levels of groups. -/

namespace TypedClient

inductive RouteTree where
  | node (actions : List (String × Action)) (groups : List (String × RouteTree))
  deriving Inhabited

namespace RouteTree

def empty : RouteTree := .node [] []

/-- The actions that stand here, by their names. -/
def actions : RouteTree → Assoc String Action
  | .node actions _ => actions

def groups : RouteTree → Assoc String RouteTree
  | .node _ groups => groups

/-- The subtree under a path of segments; an empty one when there is none. -/
def under : List String → RouteTree → RouteTree
  | [], t => t
  | s :: path, t => under path ((Assoc.get? t.groups s).getD empty)

/-- Adds an action under a path of segments, in place of one of the same name. -/
def insert (a : Action) : List String → RouteTree → RouteTree
  | [], .node actions groups => .node (Assoc.put actions a.name a) groups
  | s :: path, .node actions groups =>
    .node actions (Assoc.modify groups s empty (insert a path))

/-! ### Unique names -/

/-- A name cut before the `Async` at its end, in whatever letters. -/
def splitAsync (name : String) : List Char × List Char :=
  let cs := name.toList
  let cut := if Route.endsInAsync name then cs.length - 5 else cs.length
  (cs.take cut, cs.drop cut)

/-- A name with a number before the `Async` at its end. -/
def numbered (name : String) (n : Nat) : String :=
  let (stem, ending) := splitAsync name
  String.ofList (stem ++ (toString n).toList ++ ending)

/-- A name that is not taken: the name itself, or with the smallest number from two on. One of one
number more than there are names taken is free. -/
def freshName (taken : List String) (name : String) : String :=
  if taken.contains name then
    (((List.range' 2 (taken.length + 1)).map (numbered name)).find?
      (!taken.contains ·)).getD name
  else name

/-- What is reported when an action does not keep its name. -/
def renameWarning (path : List String) (name renamed : String) : List Warning :=
  if renamed = name then []
  else [.renamedAction (if path.isEmpty then "/" else String.intercalate "." path) name renamed]

/-- Adds an action under a path with a name that is free there. -/
def place (t : RouteTree) (path : List String) (a : Action) : RouteTree × List Warning :=
  let name := freshName (Assoc.keys (under path t).actions) a.name
  (insert { a with name } path t, renameWarning path a.name name)

/-! ### Laying out -/

mutual

/-- Drops the groups that every path begins with, as long as they hold nothing but one subtree with
groups of its own. -/
def dropCommon : RouteTree → RouteTree
  | .node [] groups => (dropOnly groups).getD (.node [] groups)
  | t => t

/-- The tree under the only group, its own common groups dropped. -/
def dropOnly : List (String × RouteTree) → Option RouteTree
  | [(_, t)] =>
    if t.actions.isEmpty && !t.groups.isEmpty then some (dropCommon t) else none
  | _ => none

end

/-- A controller with the description of its tag. -/
def controller (describe : String → Option String) (name : String)
    (actions : Assoc String Action) : Controller :=
  { name, description := describe name, actions := Assoc.values actions }

/-- The controller of a group that has actions. -/
def ownController (describe : String → Option String) (name : String)
    (actions : Assoc String Action) : List Controller :=
  if actions.isEmpty then [] else [controller describe name actions]

mutual

/-- The controllers of a group and of all groups below it, named by the segments on the way. -/
def flatten (describe : String → Option String) (name : String) : RouteTree → List Controller
  | .node actions groups => ownController describe name actions ++ flattenAll describe name groups

/-- The controllers of several groups, whose names follow `start`. -/
def flattenAll (describe : String → Option String) (start : String) :
    List (String × RouteTree) → List Controller
  | [] => []
  | (name, t) :: rest => flatten describe (start ++ name) t ++ flattenAll describe start rest

end

/-- The namespace of a group with groups below it. -/
def namespaceOf (describe : String → Option String) (name : String) (t : RouteTree) :
    ClientNamespace :=
  { name
    description := describe name
    controllers := ownController describe name t.actions ++ flattenAll describe "" t.groups }

/-- Lays out a tree: groups without groups become controllers, the others namespaces. -/
def arrange (describe : String → Option String) (t : RouteTree) : ApiDefinition :=
  let t := dropCommon t
  let (flat, deep) := t.groups.partition fun g => g.2.groups.isEmpty
  { actions := Assoc.values t.actions
    controllers := flat.map fun g => controller describe g.1 g.2.actions
    namespaces := deep.map fun g => namespaceOf describe g.1 g.2 }

end RouteTree

end TypedClient
