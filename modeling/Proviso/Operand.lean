/-
Operands: what evaluating an expression gives.

A missing field gives `absent`, which is not null. Integer literals and sums give exact integers. The list in brackets
gives a list of operands, which keeps its absent members. Everything else is a JSON value.
-/
import Proviso.Double.Wide
import Proviso.Json

namespace Proviso

/-- the result of evaluating an expression -/
inductive Operand where
  | absent
  | json (v : Json)
  | int (n : Int)
  | list (items : List Operand)

namespace Operand

/-- a verdict -/
def bool (b : Bool) : Operand := .json (.bool b)

theorem bool_inj {a b : Bool} : bool a = bool b ↔ a = b := by simp [bool]

/-- the operand of a bad input -/
def no : Operand := bool false

/-- a text -/
def string (s : String) : Operand := .json (.string s)

/-- a double, or null when it is not finite -/
def double (x : Double) : Operand := .json (.ofDouble x)

/-- a count of things -/
def count (n : Nat) : Operand := .json (.ofInt n)

/-- the operand of a field that may be missing -/
def ofOption : Option Json → Operand
  | some v => .json v
  | none => .absent

def json? : Operand → Option Json
  | .json v => some v
  | _ => none

/-- the string, when the operand is one -/
def string? (o : Operand) : Option String := o.json?.bind Json.string?

/-- the object, when the operand is one -/
def object? (o : Operand) : Option Json :=
  match o with
  | .json (.object fields) => some (.object fields)
  | _ => none

/-- the items of a JSON array; a list in brackets is none -/
def array? (o : Operand) : Option (List Json) := o.json?.bind Json.array?

def isAbsent : Operand → Bool
  | .absent => true
  | _ => false

/-- absent or null -/
def isNullish : Operand → Bool
  | .absent => true
  | .json v => v.isNull
  | _ => false

/-- false for what is absent, null, zero, empty text or false -/
def isTruthy : Operand → Bool
  | .absent => false
  | .json v => v.isTruthy
  | .int n => n ≠ 0
  | .list _ => true

/-- the name of the operand's type -/
def typeName : Operand → String
  | .absent => "undefined"
  | .json v => v.typeName
  | .int _ => "bigint"
  | .list _ => "array"

/-- the members of a list in brackets or of a JSON array -/
def elements? : Operand → Option (List Operand)
  | .list items => some items
  | .json (.array items) => some (items.map .json)
  | _ => none

/-- the exact integer that an operand denotes -/
def toInt? : Operand → Option Int
  | .int n => some n
  | .json v => v.toInt?
  | _ => none

/-- the double that an operand denotes -/
def toDouble? : Operand → Option Double
  | .int n => some (.ofWide n)
  | .json v => v.toDouble?
  | _ => none

/-- how many members or characters an operand has; only lists, arrays and texts have any -/
def length : Operand → Nat
  | .list items => items.length
  | .json (.array items) => items.length
  | .json (.string s) => s.length
  | _ => 0

end Operand

end Proviso
