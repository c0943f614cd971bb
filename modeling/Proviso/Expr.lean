/-
Expressions: the immutable trees that constraints are read into.
-/
import Proviso.Path
import Proviso.Builtin

namespace Proviso

/-- a value written in the expression; `undefined` is the operand of a missing field -/
inductive Literal where
  | string (s : String)
  | int (n : Int)
  | float (x : Double)
  | bool (b : Bool)
  | null
  | undefined
  deriving DecidableEq

/-- the operators with two operands -/
inductive BinaryOp where
  | and | or | implies | eq | ne | lt | le | gt | ge
  deriving DecidableEq, Repr

/-- an operator as it is written -/
def BinaryOp.symbol : BinaryOp → String
  | .and => "&&"
  | .or => "||"
  | .implies => "=>"
  | .eq => "=="
  | .ne => "!="
  | .lt => "<"
  | .le => "<="
  | .gt => ">"
  | .ge => ">="

/-- an expression; `every p x body` asks whether the body holds for each element of an array, bound to `x` -/
inductive Expr where
  | literal (l : Literal)
  | field (p : Path)
  | call (f : Builtin) (args : List Expr)
  | array (items : List Expr)
  | not (e : Expr)
  | binary (op : BinaryOp) (left right : Expr)
  | length (e : Expr)
  | every (p : Path) (param : String) (body : Expr)

namespace Expr

/-- the path, when the expression is a field -/
def path? : Expr → Option Path
  | .field p => some p
  | _ => none

mutual

/-- whether two trees are the same -/
def same : Expr → Expr → Bool
  | .literal a, .literal b => a == b
  | .field p, .field q => p == q
  | .call f xs, .call g ys => f == g && sameItems xs ys
  | .array xs, .array ys => sameItems xs ys
  | .not a, .not b => a.same b
  | .binary op a b, .binary op' a' b' => op == op' && a.same a' && b.same b'
  | .length a, .length b => a.same b
  | .every p x a, .every q y b => p == q && x == y && a.same b
  | _, _ => false

/-- whether two lists of trees are the same -/
def sameItems : List Expr → List Expr → Bool
  | [], [] => true
  | x :: xs, y :: ys => x.same y && sameItems xs ys
  | _, _ => false

end

mutual

theorem same_iff (a b : Expr) : a.same b = true ↔ a = b := by
  cases a <;> cases b <;> simp [same, same_iff, sameItems_iff, and_assoc]

theorem sameItems_iff (xs ys : List Expr) : sameItems xs ys = true ↔ xs = ys := by
  cases xs <;> cases ys <;> simp [sameItems, same_iff, sameItems_iff]

end

instance : DecidableEq Expr := fun a b => decidable_of_iff _ (same_iff a b)

/-! ## Balanced chains -/

/-- neighbours joined two by two; an odd one at the end stays -/
def pairUp (op : BinaryOp) : List Expr → List Expr
  | a :: b :: rest => .binary op a b :: pairUp op rest
  | rest => rest

theorem length_pairUp (op : BinaryOp) : ∀ es, (pairUp op es).length = (es.length + 1) / 2
  | [] => rfl
  | [_] => by simp [pairUp]
  | _ :: _ :: rest => by simp [pairUp, length_pairUp op rest]; omega

/-- A chain of operands joined by one operator, as a tree that grows with the logarithm of its length: neighbours are
paired until one tree is left. The operands keep their order. A chain of none is the operator's neutral value. -/
def balanced (op : BinaryOp) : List Expr → Expr
  | [] => .literal (.bool (op == .and))
  | [e] => e
  | a :: b :: rest => balanced op (pairUp op (a :: b :: rest))
termination_by es => es.length
decreasing_by simp only [length_pairUp, List.length_cons]; omega

end Expr

end Proviso
