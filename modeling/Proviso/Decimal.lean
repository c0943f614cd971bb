/-
Decimal texts: the spellings of numbers that the language and its records know.

- `canonical?`: an integer in its only canonical spelling, `0` or an optional `-` and digits without a leading zero;
- `integer?`: an integer literal, an optional sign and digits, where underscores may separate digits;
- `index?`: a position in an array, an optional `+` and digits, of 64 bits;
- `plain?`: an integer or decimal fraction, an optional `-`, digits, and a dot with more digits;
- `double?`: a double, an optional sign, digits with an optional dot among or around them, and an optional exponent.

All of them know the ASCII digits only.
-/
import Proviso.Double

namespace Proviso.Decimal

/-- the value of one digit -/
def digit (c : Char) : Nat := c.toNat - '0'.toNat

/-- the number that a run of digits denotes in base ten -/
def ofDigits (cs : List Char) : Nat := cs.foldl (fun n c => 10 * n + digit c) 0

/-- one or more digits and nothing else -/
def allDigits (cs : List Char) : Bool := !cs.isEmpty && cs.all Char.isDigit

/-- digits without a leading zero, as every positive integer is written -/
def positive? : List Char → Option Nat
  | c :: cs => if c ≠ '0' ∧ (c :: cs).all Char.isDigit then some (ofDigits (c :: cs)) else none
  | [] => none

/-- an integer in canonical spelling: no plus sign, no leading zero, no negative zero -/
def canonical? : List Char → Option Int
  | ['0'] => some 0
  | '-' :: cs => (positive? cs).map fun n => -(n : Int)
  | cs => (positive? cs).map fun n => (n : Int)

/-- digits, with underscores anywhere after the first -/
def separated? : List Char → Option Nat
  | c :: cs =>
    if c.isDigit ∧ cs.all (fun c => c.isDigit || c == '_') then some (ofDigits (c :: cs.filter Char.isDigit)) else none
  | [] => none

/-- an integer literal: an optional sign, then digits that underscores may separate -/
def integer? : List Char → Option Int
  | '-' :: cs => (separated? cs).map fun n => -(n : Int)
  | '+' :: cs => (separated? cs).map fun n => (n : Int)
  | cs => (separated? cs).map fun n => (n : Int)

/-- what is left after an optional plus sign -/
def dropPlus : List Char → List Char
  | '+' :: cs => cs
  | cs => cs

/-- a position in an array: an optional plus sign and digits, below 2^64 -/
def index? (cs : List Char) : Option UInt64 :=
  let cs := dropPlus cs
  if allDigits cs ∧ ofDigits cs < 2 ^ 64 then some (UInt64.ofNat (ofDigits cs)) else none

/-- a sign and what follows it; without one the sign is plus -/
def sign : List Char → Bool × List Char
  | '-' :: cs => (true, cs)
  | '+' :: cs => (false, cs)
  | cs => (false, cs)

/-- the double that `whole.fraction` times a power of ten denotes -/
def toDouble (neg : Bool) (whole fraction : List Char) (exponent : Int) : Double :=
  .ofDecimal neg (ofDigits (whole ++ fraction)) (exponent - fraction.length)

/-- an exponent: nothing, or `e` with an optional sign and digits -/
def exponent? : List Char → Option Int
  | [] => some 0
  | c :: cs =>
    if c = 'e' ∨ c = 'E' then
      let (neg, ds) := sign cs
      if allDigits ds then some (if neg then -(ofDigits ds : Int) else ofDigits ds) else none
    else none

/-- A double: an optional sign, digits with an optional dot among or around them, and an optional exponent. -/
def double? (cs : List Char) : Option Double :=
  let (neg, cs) := sign cs
  let whole := cs.takeWhile Char.isDigit
  let (fraction, rest) := match cs.dropWhile Char.isDigit with
    | '.' :: rest => (rest.takeWhile Char.isDigit, rest.dropWhile Char.isDigit)
    | rest => ([], rest)
  if whole.isEmpty ∧ fraction.isEmpty then none
  else (exponent? rest).map (toDouble neg whole fraction)

/-- An integer or a decimal fraction as amounts are written: an optional minus sign, digits, and optionally a dot with
digits after it. It is read as the nearest double. -/
def plain? (cs : List Char) : Option Double :=
  let (neg, cs) := match cs with
    | '-' :: cs => (true, cs)
    | cs => (false, cs)
  let whole := cs.takeWhile Char.isDigit
  if whole.isEmpty then none
  else match cs.dropWhile Char.isDigit with
    | [] => some (toDouble neg whole [] 0)
    | '.' :: fraction => if allDigits fraction then some (toDouble neg whole fraction 0) else none
    | _ => none

/-! ## Digits by themselves -/

theorem ne_of_isDigit {c d : Char} (hc : c.isDigit = true) (hd : d.isDigit = false) : c ≠ d := by
  rintro rfl
  simp [hc] at hd

section

variable {c : Char} (hc : c.isDigit = true) (cs : List Char)

include hc

/-- what starts with a digit has no sign -/
theorem sign_of_isDigit : sign (c :: cs) = (false, c :: cs) := by
  unfold sign
  split
  · next heq => exact absurd (List.cons.inj heq).1 (ne_of_isDigit hc rfl)
  · next heq => exact absurd (List.cons.inj heq).1 (ne_of_isDigit hc rfl)
  · rfl

theorem dropPlus_of_isDigit : dropPlus (c :: cs) = c :: cs := by
  unfold dropPlus
  split
  · next heq => exact absurd (List.cons.inj heq).1 (ne_of_isDigit hc rfl)
  · rfl

theorem integer?_of_isDigit : integer? (c :: cs) = (separated? (c :: cs)).map fun n => (n : Int) := by
  unfold integer?
  split
  · next heq => exact absurd (List.cons.inj heq).1 (ne_of_isDigit hc rfl)
  · next heq => exact absurd (List.cons.inj heq).1 (ne_of_isDigit hc rfl)
  · rfl

end

/-- without underscores digits are read as what they denote -/
theorem separated?_of_digits {c : Char} {cs : List Char} (h : ∀ d ∈ c :: cs, d.isDigit = true) :
    separated? (c :: cs) = some (ofDigits (c :: cs)) := by
  have hrest : ∀ d ∈ cs, d.isDigit = true := fun d hd => h d (List.mem_cons_of_mem c hd)
  have hall : cs.all (fun d => d.isDigit || d == '_') = true := by
    rw [List.all_eq_true]
    intro d hd
    rw [hrest d hd, Bool.true_or]
  rw [separated?, if_pos ⟨h c List.mem_cons_self, hall⟩, List.filter_eq_self.2 hrest]

end Proviso.Decimal
