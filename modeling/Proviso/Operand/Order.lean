/-
Order and equality of operands.

Only numbers and texts are ordered. An exact integer is compared exactly with everything that denotes an integer, and
by doubles with other numbers; two JSON numbers are compared by their doubles; texts are ordered by their characters,
which is the order of their UTF-8 bytes. Equality looks into arrays and objects. What is absent equals itself, and
also null when the options say so.
-/
import Proviso.Operand

namespace Proviso

/-- an exact integer against an operand -/
def Operand.compareInt (n : Int) (other : Operand) : Option Ordering :=
  match other.toInt? with
  | some m => some (Ord.compare n m)
  | none =>
    match other with
    | .json (.number x) => (Double.ofWide n).compare x.toDouble
    | _ => none

/-- the order of two operands, when they have one -/
def Operand.compare (a b : Operand) : Option Ordering :=
  match a, b with
  | .int n, other => compareInt n other
  | other, .int m => (compareInt m other).map Ordering.swap
  | .json (.number x), .json (.number y) => x.toDouble.compare y.toDouble
  | .json (.string s), .json (.string t) => some (Ord.compare s t)
  | _, _ => none

mutual

/-- whether a JSON value equals an operand -/
def Json.equals (loose : Bool) : Json → Operand → Bool
  | v, .absent => loose && v.isNull
  | v, .json w => v.same w
  | v, .int m => Operand.compare (.json v) (.int m) == some .eq
  | .array vs, .list items => Json.equalsItems loose vs items
  | _, .list _ => false

/-- whether JSON values equal operands in turn -/
def Json.equalsItems (loose : Bool) : List Json → List Operand → Bool
  | [], [] => true
  | v :: vs, o :: os => v.equals loose o && Json.equalsItems loose vs os
  | _, _ => false

end

mutual

/-- Equality of operands. With `loose`, what is absent equals null. -/
def Operand.equals (loose : Bool) : Operand → Operand → Bool
  | .absent, .absent => true
  | .absent, .json w => loose && w.isNull
  | .absent, _ => false
  | .json v, other => v.equals loose other
  | .int _, .absent => false
  | .int n, other => Operand.compare (.int n) other == some .eq
  | .list items, .list others => Operand.equalsItems loose items others
  | .list items, .json (.array vs) => Operand.equalsItems loose items (vs.map .json)
  | .list _, _ => false

/-- whether operands are equal in turn -/
def Operand.equalsItems (loose : Bool) : List Operand → List Operand → Bool
  | [], [] => true
  | x :: xs, y :: ys => x.equals loose y && Operand.equalsItems loose xs ys
  | _, _ => false

end

/-- whether two operands are ordered, and in an order that the relation allows -/
def Operand.related (allowed : Ordering → Bool) (a b : Operand) : Bool := (a.compare b).any allowed

end Proviso
