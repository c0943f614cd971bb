/-
The nodes of a tree: the tree itself and every expression it is built from, at any depth.
-/
import Proviso.Expr

namespace Proviso

namespace Expr

mutual

/-- the nodes of a tree: the tree itself, and then those of its subtrees from left to right -/
def nodes : Expr → List Expr
  | .literal l => [.literal l]
  | .field p => [.field p]
  | .call f args => .call f args :: nodesOf args
  | .array items => .array items :: nodesOf items
  | .not e => .not e :: e.nodes
  | .binary op left right => .binary op left right :: (left.nodes ++ right.nodes)
  | .length e => .length e :: e.nodes
  | .every p param body => .every p param body :: body.nodes

/-- the nodes of some trees in turn -/
def nodesOf : List Expr → List Expr
  | [] => []
  | e :: rest => e.nodes ++ nodesOf rest

end

theorem nodesOf_eq_flatMap (es : List Expr) : nodesOf es = es.flatMap nodes := by
  induction es with
  | nil => rfl
  | cons e rest ih => rw [nodesOf, ih, List.flatMap_cons]

theorem mem_nodesOf {n : Expr} {es : List Expr} : n ∈ nodesOf es ↔ ∃ e ∈ es, n ∈ e.nodes := by
  rw [nodesOf_eq_flatMap, List.mem_flatMap]

theorem length_nodesOf_append (es es' : List Expr) :
    (nodesOf (es ++ es')).length = (nodesOf es).length + (nodesOf es').length := by
  simp only [nodesOf_eq_flatMap, List.flatMap_append, List.length_append]

end Expr

end Proviso
