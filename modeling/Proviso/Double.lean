/-
Doubles: the values of the 64-bit binary floating-point format, with exact arithmetic behind them.

A finite double is a sign and a magnitude code. The code is the low 63 bits of the interchange format read as a number;
codes count the finite magnitudes upwards from zero, so a larger code is a larger magnitude. Every finite double is a
whole number of units of 2^-1074 (`Finite.units`). Each operation computes the exact result in units and rounds once:
to the nearest magnitude, a tie to the even code, and past the last finite code to infinity.

`compare` orders doubles by `key`: infinity stands at 2^1024, past every finite value, and a NaN has no key.
-/

namespace Proviso

-- a power of a number is the one of the core library, whatever else is in scope
attribute [instance (2000), default_instance 20000] instPowNat

/-- how many finite magnitudes there are: 2047 exponents with 2^52 fractions each -/
def Double.finiteCodes : Nat := 2047 * 2 ^ 52

/-- a finite double: its sign and its place among the finite magnitudes, counted from zero -/
structure Double.Finite where
  neg : Bool
  code : Nat
  bounded : code < Double.finiteCodes
  deriving DecidableEq, Repr

/-- a double: finite, infinite with a sign, or not a number -/
inductive Double where
  | finite (x : Double.Finite)
  | infinite (neg : Bool)
  | nan
  deriving DecidableEq, Repr

namespace Double

/-- the magnitude that a code stands for, in units of 2^-1074 -/
def unitsOfCode (code : Nat) : Nat :=
  let exponent := code / 2 ^ 52
  let fraction := code % 2 ^ 52
  if exponent = 0 then fraction else (2 ^ 52 + fraction) * 2 ^ (exponent - 1)

/-- the magnitude in units of 2^-1074 -/
def Finite.magnitude (x : Finite) : Nat := unitsOfCode x.code

/-- the value in units of 2^-1074 -/
def Finite.units (x : Finite) : Int := if x.neg then -(x.magnitude : Int) else x.magnitude

/-- units in one: the value 1 is 2^1074 units -/
def one : Nat := 2 ^ 1074

/-- the whole number nearest to `num / den`; a half goes to the even neighbour -/
def roundHalfEven (num den : Nat) : Nat :=
  let q := num / den
  let r := num % den
  if 2 * r < den ∨ (2 * r = den ∧ q % 2 = 0) then q else q + 1

/-- The code of the magnitude nearest to `num / den` units. The result is kept to 53 binary digits: the lowest `shift`
digits are rounded away. A carry out of the top digit lands on the next code, so no case is needed for it. -/
def nearestCode (num den : Nat) : Nat :=
  let shift := Nat.log2 (num / den) - 52
  shift * 2 ^ 52 + roundHalfEven num (den * 2 ^ shift)

/-- the double nearest to a signed magnitude of `num / den` units, infinite when it is too large -/
def ofUnits (neg : Bool) (num den : Nat) : Double :=
  let code := nearestCode num den
  if h : code < finiteCodes then .finite ⟨neg, code, h⟩ else .infinite neg

/-- zero with a sign -/
def zero (neg : Bool) : Double := .finite ⟨neg, 0, by decide⟩

/-- the double nearest to an integer -/
def ofInt (n : Int) : Double := ofUnits (decide (n < 0)) (n.natAbs * one) 1

/-- The double nearest to `± digits · 10^exponent`. From 10^310 on the value is past every double, and below 10^-330 it
is nearer to zero than to anything else; those two cases are settled before any power is computed. -/
def ofDecimal (neg : Bool) (digits : Nat) (exponent : Int) : Double :=
  if digits = 0 then zero neg
  else if 309 < exponent then .infinite neg
  else if exponent + (Nat.log2 digits + 1 : Nat) < -330 then zero neg
  else match exponent with
    | .ofNat e => ofUnits neg (digits * 10 ^ e * one) 1
    | .negSucc e => ofUnits neg (digits * one) (10 ^ (e + 1))

/-- 2^1024 in units, where infinity stands: past every finite value -/
def infinityUnits : Int := 2 ^ 2098

/-- the value in units; a NaN has none -/
def key : Double → Option Int
  | .finite x => some x.units
  | .infinite neg => some (if neg then -infinityUnits else infinityUnits)
  | .nan => none

/-- the order of two doubles; a NaN is unordered -/
def compare (a b : Double) : Option Ordering :=
  match a.key, b.key with
  | some x, some y => some (Ord.compare x y)
  | _, _ => none

/-- equal as numbers: both zeros are equal, a NaN equals nothing -/
def equal (a b : Double) : Bool := a.compare b == some .eq

/-- `a ≤ b` as numbers, false for a NaN -/
def le (a b : Double) : Bool := (a.compare b).any (· != .gt)

/-- `a < b` as numbers, false for a NaN -/
def lt (a b : Double) : Bool := a.compare b == some .lt

/-- the double with the other sign -/
def negate : Double → Double
  | .finite x => .finite { x with neg := !x.neg }
  | .infinite neg => .infinite !neg
  | .nan => .nan

/-- the double without its sign -/
def abs : Double → Double
  | .finite x => .finite { x with neg := false }
  | .infinite _ => .infinite false
  | .nan => .nan

/-- the sum; an exact zero is negative only when both terms are -/
def add : Double → Double → Double
  | .finite x, .finite y =>
    let n := x.units + y.units
    if n = 0 then zero (x.neg && y.neg) else ofUnits (decide (n < 0)) n.natAbs 1
  | .infinite s, .infinite t => if s = t then .infinite s else .nan
  | .infinite s, .finite _ => .infinite s
  | .finite _, .infinite t => .infinite t
  | .nan, _ => .nan
  | _, .nan => .nan

/-- the difference -/
def sub (a b : Double) : Double := a.add b.negate

/-- the quotient -/
def div : Double → Double → Double
  | .finite x, .finite y =>
    if y.magnitude = 0 then (if x.magnitude = 0 then .nan else .infinite (x.neg ^^ y.neg))
    else ofUnits (x.neg ^^ y.neg) (x.magnitude * one) y.magnitude
  | .infinite s, .finite y => .infinite (s ^^ y.neg)
  | .finite x, .infinite t => zero (x.neg ^^ t)
  | _, _ => .nan

/-- the sum from left to right, each partial sum rounded -/
def sum (xs : List Double) : Double := xs.foldl add (zero false)

/-- the 64 bits of the interchange format -/
def toBits : Double → Nat
  | .finite x => (if x.neg then 2 ^ 63 else 0) + x.code
  | .infinite neg => (if neg then 2 ^ 63 else 0) + finiteCodes
  | .nan => finiteCodes + 2 ^ 51

/-! ## The rounding rule -/

/-- a whole quotient is kept -/
theorem roundHalfEven_mul (q den : Nat) (h : 0 < den) : roundHalfEven (q * den) den = q := by
  simp [roundHalfEven, Nat.mul_div_cancel _ h, h]

/-- what is kept to 53 digits as it stands is its own code -/
theorem nearestCode_of_lt (n : Nat) (h : n < 2 ^ 53) : nearestCode n 1 = n := by
  have hs : Nat.log2 n - 52 = 0 := by
    by_cases hn : n = 0
    · subst hn; decide
    · have := (Nat.log2_lt hn).2 h
      omega
  have hr := roundHalfEven_mul n 1 Nat.one_pos
  rw [Nat.mul_one] at hr
  simp [nearestCode, hs, hr]

/-- a double that is a number equals itself -/
theorem equal_self (a : Double) (h : a ≠ .nan) : a.equal a = true := by
  cases a <;> simp_all [equal, compare, key]

end Double

end Proviso
