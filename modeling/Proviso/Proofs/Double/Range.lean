/-
Which results are finite doubles.

The largest finite double is 2^1024 - 2^971. Half a step above it, at 2^1024 - 2^970, rounding begins to give infinity: the
double nearest to a quotient is finite exactly when the quotient is smaller (`nearestCode_lt_finiteCodes_iff`). So it is known
of exact values alone when the double of a decimal fraction, a sum and a difference are finite (`exists_ofDecimal_iff`,
`exists_add_iff`, `exists_sub_iff`); integers of 64 bits always have a finite double (`Number.exists_toDouble`).
-/
import Mathlib.Tactic.Ring
import Proviso.Json
import Proviso.Proofs.Double.Thousandths

namespace Proviso

namespace Double

/-- half the step between the largest finite doubles, 2^970, in units -/
@[irreducible]
def halfStep : Nat := 2 ^ 2044

theorem pos_halfStep : 0 < halfStep := by
  unfold halfStep
  apply Nat.two_pow_pos

theorem two_pow_eq_mul_halfStep (k : Nat) : 2 ^ (k + 2044) = 2 ^ k * halfStep := by
  unfold halfStep
  exact Nat.pow_add 2 k 2044

/-- 2^1024 - 2^970 in units, from where on the nearest double is infinite -/
@[irreducible]
def overflowUnits : Nat := (2 ^ 54 - 1) * halfStep

theorem mul_halfStep_le_overflowUnits : 2 ^ 53 * halfStep ≤ overflowUnits := by
  unfold overflowUnits
  exact Nat.mul_le_mul_right _ (by decide)

/-- a quotient is rounded past an odd number exactly from half a step above it on -/
theorem roundHalfEven_le_odd_iff {q : Nat} (hodd : q % 2 = 1) (num half : Nat) (hpos : 0 < half) :
    roundHalfEven num (2 * half) ≤ q ↔ num < (2 * q + 1) * half := by
  have hdivision := Nat.div_add_mod num (2 * half)
  have hrest := Nat.mod_lt num (show 0 < 2 * half by omega)
  have hexpand : (2 * q + 1) * half = 2 * half * q + half := by ring
  rw [hexpand]
  rcases Nat.lt_trichotomy (num / (2 * half)) q with hlt | heq | hgt
  · have hup := roundHalfEven_le num (2 * half)
    have hstep : 2 * half * (num / (2 * half) + 1) ≤ 2 * half * q := Nat.mul_le_mul_left _ hlt
    rw [Nat.mul_add] at hstep
    constructor <;> intro <;> omega
  · rw [heq] at hdivision
    simp only [roundHalfEven, heq]
    split <;> constructor <;> intro <;> omega
  · have hlow := le_roundHalfEven num (2 * half)
    have hstep : 2 * half * (q + 1) ≤ 2 * half * (num / (2 * half)) := Nat.mul_le_mul_left _ hgt
    rw [Nat.mul_add] at hstep
    constructor <;> intro <;> omega

/-- **The nearest double is finite exactly below 2^1024 - 2^970.** -/
theorem nearestCode_lt_finiteCodes_iff {num den : Nat} (hden : 0 < den) :
    nearestCode num den < finiteCodes ↔ num < overflowUnits * den := by
  have hcarry := roundHalfEven_le_carry num den
  have hlast : finiteCodes = 2045 * 2 ^ 52 + 2 ^ 53 := by decide
  have hbelow : num / den < 2 ^ (53 + cutDigits (num / den)) := by
    refine Nat.lt_of_lt_of_le Nat.lt_log2_self (Nat.pow_le_pow_right (by decide) ?_)
    unfold cutDigits
    omega
  rw [nearestCode_eq, hlast]
  rcases Nat.lt_trichotomy (cutDigits (num / den)) (1 + 2044) with hlt | heq | hgt
  · have hsmall : num / den < overflowUnits :=
      calc num / den < 2 ^ (53 + cutDigits (num / den)) := hbelow
        _ ≤ 2 ^ (53 + 2044) := Nat.pow_le_pow_right (by decide) (by omega)
        _ = 2 ^ 53 * halfStep := two_pow_eq_mul_halfStep 53
        _ ≤ overflowUnits := mul_halfStep_le_overflowUnits
    have hnum : num < overflowUnits * den := (Nat.div_lt_iff_lt_mul hden).1 hsmall
    constructor
    · exact fun _ => hnum
    · intro _
      omega
  · -- here the last digit that is kept is worth two half steps
    have hstep : den * 2 ^ cutDigits (num / den) = 2 * (den * halfStep) := by
      rw [heq, two_pow_eq_mul_halfStep 1, Nat.pow_one, Nat.mul_left_comm]
    have hthreshold : overflowUnits * den = (2 * (2 ^ 53 - 1) + 1) * (den * halfStep) := by
      rw [show 2 * (2 ^ 53 - 1) + 1 = 2 ^ 54 - 1 by decide, overflowUnits, Nat.mul_assoc, Nat.mul_comm den]
    have hround := roundHalfEven_le_odd_iff (q := 2 ^ 53 - 1) (by decide) num _ (Nat.mul_pos hden pos_halfStep)
    rw [hstep, hthreshold, ← hround]
    constructor <;> intro <;> omega
  · have hkept := le_roundHalfEven_cut num den (by omega)
    have hne : num / den ≠ 0 := by
      intro hzero
      simp [cutDigits, hzero] at hgt
    have hlog : 54 + 2044 ≤ (num / den).log2 := by
      unfold cutDigits at hgt
      omega
    have hpow := (Nat.le_log2 hne).1 hlog
    rw [two_pow_eq_mul_halfStep 54] at hpow
    have hlarge : overflowUnits ≤ num / den := by
      unfold overflowUnits
      exact Nat.le_trans (Nat.mul_le_mul_right _ (by decide)) hpow
    have hnum : overflowUnits * den ≤ num := (Nat.le_div_iff_mul_le hden).1 hlarge
    constructor <;> intro <;> omega

theorem exists_ofUnits_iff (neg : Bool) {num den : Nat} (hden : 0 < den) :
    (∃ x, ofUnits neg num den = .finite x) ↔ num < overflowUnits * den := by
  rw [← nearestCode_lt_finiteCodes_iff hden]
  by_cases h : nearestCode num den < finiteCodes
  · simp [ofUnits_of_lt neg h, h]
  · simp [ofUnits_of_not_lt neg h, h]

theorem pos_overflowUnits : 0 < overflowUnits := by
  unfold overflowUnits
  exact Nat.mul_pos (by decide) pos_halfStep

theorem two_pow_lt_overflowUnits {k : Nat} (hk : k < 53 + 2044) : 2 ^ k < overflowUnits := by
  have hpow := Nat.pow_lt_pow_right (show 1 < 2 by decide) hk
  rw [two_pow_eq_mul_halfStep 53] at hpow
  exact Nat.lt_of_lt_of_le hpow mul_halfStep_le_overflowUnits

theorem two_pow_mul_one_lt_overflowUnits {k : Nat} (hk : k + 1074 < 53 + 2044) : 2 ^ k * one < overflowUnits := by
  have hpow := two_pow_lt_overflowUnits hk
  rwa [Nat.pow_add] at hpow

/-! ## Sums and differences -/

theorem exists_add_iff (x y : Finite) :
    (∃ z, (finite x).add (finite y) = .finite z) ↔ (x.units + y.units).natAbs < overflowUnits := by
  rw [add]
  by_cases hzero : x.units + y.units = 0
  · rw [if_pos hzero, hzero]
    exact iff_of_true ⟨_, rfl⟩ pos_overflowUnits
  · rw [if_neg hzero, exists_ofUnits_iff _ Nat.one_pos, Nat.mul_one]

theorem Finite.units_negated (x : Finite) : Finite.units { x with neg := !x.neg } = -x.units := by
  rw [units, units]
  cases x.neg
  · rfl
  · exact (Int.neg_neg _).symm

theorem exists_sub_iff (x y : Finite) :
    (∃ z, (finite x).sub (finite y) = .finite z) ↔ (x.units - y.units).natAbs < overflowUnits := by
  rw [sub, negate, exists_add_iff, Finite.units_negated, Int.sub_eq_add_neg]

/-- a difference is finite only between finite doubles -/
theorem exists_finite_of_sub {x y : Double} {z : Finite} (h : x.sub y = .finite z) :
    ∃ a b, x = .finite a ∧ y = .finite b := by
  cases x with
  | finite a =>
    cases y with
    | finite b => exact ⟨a, b, rfl, rfl⟩
    | infinite | nan => cases h
  | infinite neg =>
    cases y with
    | finite | nan => cases h
    | infinite neg' =>
      rw [sub, negate, add] at h
      split at h <;> cases h
  | nan => cases y <;> cases h

/-! ## Decimal fractions and integers -/

/-- the double nearest to `digits / 10^places` is finite exactly when that is below 2^1024 - 2^970 -/
theorem exists_ofDecimal_iff (neg : Bool) (digits places : Nat) :
    (∃ x, ofDecimal neg digits (-places) = .finite x) ↔ digits * one < overflowUnits * 10 ^ places := by
  have hpow : 0 < 10 ^ places := Nat.pow_pos (by decide)
  unfold ofDecimal
  split
  · next hzero =>
    rw [hzero, Nat.zero_mul]
    exact iff_of_true ⟨_, rfl⟩ (Nat.mul_pos pos_overflowUnits hpow)
  split
  · omega
  split
  · next hzero hlarge hsmall =>
    -- such a fraction is less than one
    have hdigits : digits < 10 ^ places :=
      calc digits < 2 ^ (digits.log2 + 1) := Nat.lt_log2_self
        _ ≤ 2 ^ places := Nat.pow_le_pow_right (by decide) (by omega)
        _ ≤ 10 ^ places := Nat.pow_le_pow_left (by decide) places
    have hone := two_pow_mul_one_lt_overflowUnits (k := 0) (by decide)
    rw [Nat.pow_zero, Nat.one_mul] at hone
    refine iff_of_true ⟨_, rfl⟩ ?_
    calc digits * one < 10 ^ places * one := Nat.mul_lt_mul_of_pos_right hdigits pos_one
      _ = one * 10 ^ places := Nat.mul_comm _ _
      _ ≤ overflowUnits * 10 ^ places := Nat.mul_le_mul_right _ (Nat.le_of_lt hone)
  · cases places with
    | zero =>
      have hunits : (∃ x, ofUnits neg (digits * one) 1 = .finite x) ↔ digits * one < overflowUnits * 1 :=
        exists_ofUnits_iff neg Nat.one_pos
      simpa using hunits
    | succ e => exact exists_ofUnits_iff neg hpow

end Double

/-- the double of a JSON number is finite -/
theorem Number.exists_toDouble (n : Number) : ∃ x, n.toDouble = .finite x := by
  cases n with
  | float x => exact ⟨x, rfl⟩
  | int n =>
    have hlower := n.lower
    have hupper := n.upper
    have hsize : n.val.natAbs * Double.one < Double.overflowUnits * 1 :=
      calc n.val.natAbs * Double.one ≤ 2 ^ 64 * Double.one := Nat.mul_le_mul_right _ (by omega)
        _ < Double.overflowUnits := Double.two_pow_mul_one_lt_overflowUnits (by decide)
        _ = Double.overflowUnits * 1 := (Nat.mul_one _).symm
    exact (Double.exists_ofUnits_iff _ Nat.one_pos).2 hsize

end Proviso
