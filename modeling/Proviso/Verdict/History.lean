/-
Verdicts on change: a field now, and the same field in the earlier state of the record.

`before` is `none` when the record carries no earlier state, and `some none` when that state lacks the field.
-/
import Proviso.Operand.Order

namespace Proviso.Verdict

/-- whether the field differs from its earlier value; without an earlier state nothing has changed -/
def changed (before : Option (Option Json)) (now : Option Json) : Operand :=
  match before with
  | none => .bool false
  | some old => .bool (!(Operand.ofOption old).equals false (.ofOption now))

/-- the earlier value of the field -/
def previous (before : Option (Option Json)) : Operand := .ofOption before.join

/-- The field less its earlier value: exact when both are integers, and otherwise as doubles. Without an earlier state
it is zero; when a value is missing or not numeric it is false. -/
def delta (before : Option (Option Json)) (now : Option Json) : Operand :=
  match before with
  | none => .int 0
  | some old =>
    match old, now with
    | some old, some new =>
      match old.toInt?, new.toInt? with
      | some n, some m => .int (m - n)
      | _, _ =>
        match old.toDouble?, new.toDouble? with
        | some x, some y => .double (y.sub x)
        | _, _ => .no
    | _, _ => .no

end Proviso.Verdict
