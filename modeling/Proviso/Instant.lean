/-
Instants: moments of universal time, with leap seconds.

An instant is a day, a second of that day and nanoseconds. A leap second is kept as the second before it with 10^9 or
more nanoseconds, so that it comes after that second and before the next one. Days are counted in the Gregorian
calendar without end in both directions; day 0 is 1 March of year 0, so a leap day is the last day of its year and
the calendar repeats every 146097 days.
-/
import Proviso.Double

namespace Proviso

/-- a day of the Gregorian calendar -/
structure Date where
  year : Int
  month : Nat
  day : Nat
  deriving DecidableEq, Repr

namespace Date

/-- every fourth year, but of the full centuries only every fourth -/
def isLeapYear (year : Int) : Bool := year % 4 == 0 && (year % 100 != 0 || year % 400 == 0)

/-- how many days a month has -/
def daysIn (year : Int) (month : Nat) : Nat :=
  if month = 2 then (if isLeapYear year then 29 else 28)
  else if month = 4 ∨ month = 6 ∨ month = 9 ∨ month = 11 then 30
  else 31

/-- whether the calendar has this day -/
def isValid (d : Date) : Bool := 1 ≤ d.month && d.month ≤ 12 && 1 ≤ d.day && d.day ≤ daysIn d.year d.month

/-- Days since 1 March of year 0. Months are counted from March; the first `m` of them have `(153 · m + 2) / 5` days. -/
def dayNumber (d : Date) : Int :=
  let year := if d.month ≤ 2 then d.year - 1 else d.year
  let month := if d.month ≤ 2 then d.month + 9 else d.month - 3
  365 * year + year / 4 - year / 100 + year / 400 + ((153 * month + 2) / 5 + d.day - 1 : Nat)

/-- The date of a day number: the 400-year cycle, the year in it, and the day of that year counted from March. -/
def ofDayNumber (n : Int) : Date :=
  let cycle := n / 146097
  let day := (n % 146097).toNat
  let year := (day - day / 1460 + day / 36524 - day / 146096) / 365
  let dayOfYear := day - (365 * year + year / 4 - year / 100)
  let month := (5 * dayOfYear + 2) / 153
  { year := cycle * 400 + year + (if month < 10 then 0 else 1)
    month := if month < 10 then month + 3 else month - 9
    day := dayOfYear - (153 * month + 2) / 5 + 1 }

end Date

/-- a moment of universal time -/
structure Instant where
  day : Int
  second : Fin 86400
  nano : Fin 2000000000
  deriving DecidableEq, Repr

namespace Instant

/-- the earlier of two instants has the smaller day, second and nanoseconds, looked at in this order -/
def compare (a b : Instant) : Ordering :=
  (Ord.compare a.day b.day).then ((Ord.compare a.second.val b.second.val).then (Ord.compare a.nano.val b.nano.val))

def lt (a b : Instant) : Bool := a.compare b == .lt

def le (a b : Instant) : Bool := a.compare b != .gt

/-- the earlier one -/
def min (a b : Instant) : Instant := if a.le b then a else b

/-- the later one -/
def max (a b : Instant) : Instant := if a.le b then b else a

/-- whether the instant lies in a leap second -/
def isLeap (a : Instant) : Bool := 1000000000 ≤ a.nano.val

/-- Nanoseconds from `b` to `a`. The fields are subtracted; a leap second that lies between the two in their days, so
that its second of the day is the smaller one, counts one second more. -/
def since (a b : Instant) : Int :=
  let leap : Int :=
    if b.second < a.second then (if b.isLeap then 1 else 0)
    else if a.second < b.second then (if a.isLeap then -1 else 0)
    else 0
  ((a.day - b.day) * 86400 + ((a.second.val : Int) - b.second.val) + leap) * 1000000000
    + ((a.nano.val : Int) - b.nano.val)

/-- seconds from `b` to `a` as a double: whole milliseconds, cut off toward zero, divided by a thousand -/
def secondsSince (a b : Instant) : Double :=
  (Double.ofInt ((a.since b).tdiv 1000000)).div (.ofInt 1000)

/-- midnight at the start of a date -/
def midnight (d : Date) : Instant := ⟨d.dayNumber, 0, 0⟩

/-- the instant at a date and a time of day that is `offset` minutes ahead of universal time -/
def ofLocal (date : Date) (hour minute second nano : Nat) (offset : Int) : Instant :=
  let minutes : Int := date.dayNumber * 1440 + hour * 60 + minute - offset
  { day := minutes / 1440
    second := Fin.ofNat 86400 ((minutes % 1440).toNat * 60 + Nat.min second 59)
    nano := Fin.ofNat 2000000000 ((if second = 60 then 1000000000 else 0) + nano) }

end Instant

end Proviso
