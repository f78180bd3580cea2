import TypedClient.Graph

/-! What can be reached in a graph, and the components that are found by it: a node is put together
with the nodes that it reaches and that reach it. -/

namespace TypedClient.Graph

theorem length_unseen_lt {nodes seen : List String} {x : String} (hs : x ∉ seen)
    (hn : x ∈ nodes) :
    (nodes.filter (· ∉ x :: seen)).length < (nodes.filter (· ∉ seen)).length := by
  simp only [← List.countP_eq_length_filter]
  have hle : ∀ l : List String, l.countP (· ∉ x :: seen) ≤ l.countP (· ∉ seen) := fun l =>
    List.countP_mono_left fun a _ h => by simp_all
  induction nodes with
  | nil => simp at hn
  | cons a nodes ih =>
    have hl := hle nodes
    by_cases ha : a = x
    · subst ha
      simp [hs] at hl ⊢
      omega
    · have := ih (by simpa [Ne.symm ha] using hn)
      by_cases hm : a ∈ seen <;> simp [ha, hm] at this ⊢ <;> omega

/-- Adds what `todo` leads to, within `nodes`, to what has been seen. -/
def explore (nodes : List String) (next : String → List String) (todo seen : List String) :
    List String :=
  match todo with
  | [] => seen
  | x :: todo =>
    if _ : x ∉ seen ∧ x ∈ nodes then explore nodes next (next x ++ todo) (x :: seen)
    else explore nodes next todo seen
termination_by ((nodes.filter (· ∉ seen)).length, todo.length)
decreasing_by
  · have h : x ∉ seen ∧ x ∈ nodes := ‹_›
    exact Prod.Lex.left _ _ (length_unseen_lt h.1 h.2)
  · exact Prod.Lex.right _ (by simp)

/-- The nodes at the end of a path of at least one edge from `x`. -/
def from_ (nodes : List String) (next : String → List String) (x : String) : List String :=
  explore nodes next (next x) []

/-- The component of a node. -/
def componentOf (nodes : List String) (next : String → List String) (x : String) : List String :=
  nodes.filter fun y =>
    y == x || ((from_ nodes next x).contains y && (from_ nodes next y).contains x)

instance : Components :=
  ⟨fun nodes next => (nodes.map (componentOf nodes next)).eraseDups⟩

end TypedClient.Graph
