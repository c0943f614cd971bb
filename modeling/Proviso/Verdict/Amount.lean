/-
Verdicts on amounts: exact integers of any size, written as canonical integer texts or as integer numbers.
-/
import Proviso.Operand
import Proviso.Path

namespace Proviso.Verdict

/-- the operand to add for one item: the item itself, or the field of that dotted name in it -/
def selected (field : Option String) (item : Operand) : Operand :=
  match field with
  | none => item
  | some name => .ofOption (item.json?.bind (·.lookupDotted name))

/-- The sum of operands that denote integers. What is absent or null is passed over; anything else spoils the sum. -/
def total : List Operand → Option Int
  | [] => some 0
  | x :: rest =>
    if x.isNullish then total rest
    else match x.toInt?, total rest with
      | some n, some m => some (n + m)
      | _, _ => none

/-- The exact sum of the items of `source`, or of the field in each of them that `field` names. -/
def bigintSum (source : Operand) (field : Option Operand) : Operand :=
  match source.elements? with
  | none => .no
  | some items =>
    let sum (name : Option String) : Operand :=
      match total (items.map (selected name)) with
      | some n => .int n
      | none => .no
    match field with
    | none => sum none
    | some (.json (.string name)) => sum (some name)
    | some _ => .no

/-- what a function of two integers makes of two operands, when both denote one -/
def onIntegers {α : Type} (f : Int → Int → α) (a b : Operand) : Option α :=
  match a.toInt?, b.toInt? with
  | some n, some m => some (f n m)
  | _, _ => none

/-- a relation of integers, false unless both operands denote one -/
def integersRelated (r : Int → Int → Bool) (a b : Operand) : Operand := .bool ((onIntegers r a b).getD false)

/-- an operation on integers, false unless both operands denote one -/
def integersCombined (f : Int → Int → Int) (a b : Operand) : Operand :=
  match onIntegers f a b with
  | some n => .int n
  | none => .no

def bigintGte : Operand → Operand → Operand := integersRelated fun a b => b ≤ a
def bigintGt : Operand → Operand → Operand := integersRelated fun a b => b < a
def bigintEq : Operand → Operand → Operand := integersRelated fun a b => a = b
def bigintSub : Operand → Operand → Operand := integersCombined fun a b => a - b
def bigintAdd : Operand → Operand → Operand := integersCombined fun a b => a + b

/-- whether an operand denotes an exact integer -/
def isBigintCoercible (a : Operand) : Operand := .bool a.toInt?.isSome

end Proviso.Verdict
