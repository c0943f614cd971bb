/-
Options of an evaluation, and their form as a JSON value.
-/
import Proviso.Json

namespace Proviso

/-- The two settings of an evaluation. `absentEqualsNull` lets equality take a missing field for null.
`evaluationTimestamp` is the instant that `now` reports; without a valid one `now` reads the clock. -/
structure Options where
  absentEqualsNull : Bool := false
  evaluationTimestamp : Option String := none
  deriving DecidableEq, Repr

namespace Options

/-- the options with missing fields equal to null, or not -/
def withAbsentEqualsNull (o : Options) (enabled : Bool) : Options := { o with absentEqualsNull := enabled }

/-- the options with a timestamp -/
def withEvaluationTimestamp (o : Options) (timestamp : String) : Options :=
  { o with evaluationTimestamp := some timestamp }

/-- options from the values of the two settings: a setting without one keeps its default, and a value of the wrong type
is refused -/
def ofSettings? (absentEqualsNull evaluationTimestamp : Option Json) : Option Options := do
  let absentEqualsNull ← match absentEqualsNull with
    | none => some false
    | some (.bool b) => some b
    | some _ => none
  let evaluationTimestamp ← match evaluationTimestamp with
    | none | some .null => some none
    | some (.string s) => some (some s)
    | some _ => none
  return { absentEqualsNull, evaluationTimestamp }

/-- Options as they are configured: an object that may name either setting, where other names are passed over, or an
array of the settings in their order, which may be shorter but not longer. -/
def ofJson? : Json → Option Options
  | .object fields =>
    ofSettings? (Record.get? fields "absent_equals_null") (Record.get? fields "evaluation_timestamp")
  | .array items => if items.length ≤ 2 then ofSettings? items[0]? items[1]? else none
  | _ => none

end Options

end Proviso
