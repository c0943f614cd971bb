/-
Timestamps as text.

`ofRfc3339?` reads a date and a time of day with an offset from universal time: four digits of year, two of everything
else, `T` or a blank between date and time, an optional fraction of a second, and `Z` or an offset. Second 60 names a
leap second. `ofText?` also reads a bare date of ten bytes, loosely: blanks may stand before each number, the year may
have a sign, and months and days may have one digit.

`text` writes an instant in universal time with three digits of a second.
-/
import Proviso.Instant
import Proviso.Decimal
import Proviso.Text.Blank

namespace Proviso.Instant

/-- exactly `n` digits, and what follows -/
def fixed? (n : Nat) (cs : List Char) : Option (Nat × List Char) :=
  let ds := cs.take n
  if ds.length = n ∧ ds.all Char.isDigit then some (Decimal.ofDigits ds, cs.drop n) else none

/-- what follows one given character -/
def after? (c : Char) : List Char → Option (List Char)
  | d :: cs => if d = c then some cs else none
  | [] => none

/-- an optional fraction of a second in nanoseconds: a dot and digits, of which nine count -/
def fraction? : List Char → Option (Nat × List Char)
  | '.' :: cs =>
    let ds := cs.takeWhile Char.isDigit
    if ds.isEmpty then none
    else
      let counted := ds.take 9
      some (Decimal.ofDigits counted * 10 ^ (9 - counted.length), cs.dropWhile Char.isDigit)
  | cs => some (0, cs)

/-- an offset from universal time in minutes, and what follows: `Z`, or a sign with hours and minutes -/
def offset? : List Char → Option (Int × List Char)
  | [] => none
  | c :: cs =>
    if c = 'Z' ∨ c = 'z' then some (0, cs)
    else if c = '+' ∨ c = '-' ∨ c = '\u2212' then do
      let (hours, cs) ← fixed? 2 cs
      let cs ← after? ':' cs
      let (minutes, cs) ← fixed? 2 cs
      if hours < 24 ∧ minutes < 60 then
        let total : Int := 60 * hours + minutes
        return (if c = '+' then total else -total, cs)
      else none
    else none

/-- a date and time of day with its offset -/
def ofRfc3339? (cs : List Char) : Option Instant := do
  let (year, cs) ← fixed? 4 cs
  let cs ← after? '-' cs
  let (month, cs) ← fixed? 2 cs
  let cs ← after? '-' cs
  let (day, cs) ← fixed? 2 cs
  let cs ← match cs with
    | c :: cs => if c = 'T' ∨ c = 't' ∨ c = ' ' then some cs else none
    | [] => none
  let (hour, cs) ← fixed? 2 cs
  let cs ← after? ':' cs
  let (minute, cs) ← fixed? 2 cs
  let cs ← after? ':' cs
  let (second, cs) ← fixed? 2 cs
  let (nano, cs) ← fraction? cs
  let (offset, cs) ← offset? cs
  let date : Date := ⟨year, month, day⟩
  if cs.isEmpty ∧ date.isValid ∧ hour < 24 ∧ minute < 60 ∧ second ≤ 60 then
    some (ofLocal date hour minute second nano offset)
  else none

/-- one to `most` digits after any blanks, and what follows -/
def loose? (most : Nat) (cs : List Char) : Option (Nat × List Char) :=
  let cs := cs.dropWhile Text.isBlank
  let ds := (cs.take most).takeWhile Char.isDigit
  if ds.isEmpty then none else some (Decimal.ofDigits ds, cs.drop ds.length)

/-- a year after any blanks: up to four digits, or a sign and any number of them -/
def looseYear? (cs : List Char) : Option (Int × List Char) :=
  match cs.dropWhile Text.isBlank with
  | '-' :: cs => (signed? cs).map fun (n, cs) => (-(n : Int), cs)
  | '+' :: cs => (signed? cs).map fun (n, cs) => ((n : Int), cs)
  | cs => (loose? 4 cs).map fun (n, cs) => ((n : Int), cs)
where
  signed? (cs : List Char) : Option (Nat × List Char) :=
    let ds := cs.takeWhile Char.isDigit
    if ds.isEmpty then none else some (Decimal.ofDigits ds, cs.drop ds.length)

/-- a year, a month and a day with hyphens between them -/
def looseDate? (cs : List Char) : Option Date := do
  let (year, cs) ← looseYear? cs
  let cs ← after? '-' cs
  let (month, cs) ← loose? 2 cs
  let cs ← after? '-' cs
  let (day, cs) ← loose? 2 cs
  let date : Date := ⟨year, month, day⟩
  if cs.isEmpty ∧ date.isValid then some date else none

/-- A timestamp: a date and time of day with its offset, or a date of ten bytes, which stands for its midnight. -/
def ofText? (s : String) : Option Instant :=
  match ofRfc3339? s.toList with
  | some t => some t
  | none => if s.utf8ByteSize = 10 then (looseDate? s.toList).map midnight else none

/-- a number with zeros in front up to a width -/
def padded (width n : Nat) : String :=
  let ds := toString n
  String.ofList (List.replicate (width - ds.length) '0') ++ ds

/-- a year in four digits, with a sign and more digits where it needs them -/
def yearText (year : Int) : String :=
  if 0 ≤ year ∧ year ≤ 9999 then padded 4 year.toNat
  else (if year < 0 then "-" else "+") ++ padded 4 year.natAbs

/-- the instant in universal time, milliseconds cut off; a leap second is written as second 60 -/
def text (t : Instant) : String :=
  let date := Date.ofDayNumber t.day
  let second := t.second.val % 60 + (if t.isLeap then 1 else 0)
  let milli := t.nano.val % 1000000000 / 1000000
  yearText date.year ++ "-" ++ padded 2 date.month ++ "-" ++ padded 2 date.day ++ "T"
    ++ padded 2 (t.second.val / 3600) ++ ":" ++ padded 2 (t.second.val / 60 % 60) ++ ":" ++ padded 2 second
    ++ "." ++ padded 3 milli ++ "Z"

end Proviso.Instant
