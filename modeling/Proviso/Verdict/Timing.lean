/-
Verdicts on timestamps: which is later, and how much time has passed.
-/
import Proviso.Operand
import Proviso.Options
import Proviso.Instant.Text

namespace Proviso.Verdict

/-- the instant that an operand names, when it is a timestamp -/
def instant? (o : Operand) : Option Instant := o.string?.bind Instant.ofText?

/-- whether `a` is later than `b` -/
def isAfter (a b : Operand) : Operand :=
  match instant? a, instant? b with
  | some a, some b => .bool (b.lt a)
  | _, _ => .no

/-- whether `a` is earlier than `b` -/
def isBefore (a b : Operand) : Operand :=
  match instant? a, instant? b with
  | some a, some b => .bool (a.lt b)
  | _, _ => .no

/-- whether the value lies between two instants, both included -/
def isBetween (value lower upper : Operand) : Operand :=
  match instant? value, instant? lower, instant? upper with
  | some v, some lo, some hi => .bool (lo.le v && v.le hi)
  | _, _, _ => .no

/-- the seconds from a timestamp to a reference, and the age in seconds that is allowed, which is not negative -/
def age? (timestamp maxAge reference : Operand) : Option (Double × Double) :=
  match instant? timestamp, instant? reference, maxAge.toDouble? with
  | some t, some r, some limit => if (Double.zero false).le limit then some (r.secondsSince t, limit) else none
  | _, _, _ => none

/-- whether more time has passed than is allowed -/
def isStale (timestamp maxAge reference : Operand) : Operand :=
  match age? timestamp maxAge reference with
  | some (elapsed, limit) => .bool (limit.lt elapsed)
  | none => .no

/-- whether no more time has passed than is allowed -/
def isWithin (timestamp maxAge reference : Operand) : Operand :=
  match age? timestamp maxAge reference with
  | some (elapsed, limit) => .bool (elapsed.le limit)
  | none => .no

/-- the instant of the evaluation: the configured one when it is a date and time with an offset, and else the clock's -/
def evaluationInstant (options : Options) (clock : Instant) : Instant :=
  (options.evaluationTimestamp.bind fun s => Instant.ofRfc3339? s.toList).getD clock

/-- the instant of the evaluation as text -/
def now (options : Options) (clock : Instant) : Operand := .string (evaluationInstant options clock).text

end Proviso.Verdict
