/-
Sums of doubles, and how far they lie from the exact sum.

A sum is added up from left to right and rounded at each step. One rounding is wrong by 2^-53 of the exact result at most
(`rounded_error`), and not at all where the result is a small multiple of a power of two (`rounded_multiple`). So the sum
of `n` doubles lies within `((1 + 2^-53)^(n-1) - 1)` times the sum of their magnitudes of the exact sum, in whatever order
they are added (`sumsWithin_drift`), and on a grid of few steps it is the exact sum (`sumsWithin_zero`). Where the exact sum
is farther from a bound than that, every order gives the same verdict on the bound (`Clear.le_iff`).
-/
import Mathlib.Algebra.BigOperators.Group.List.Basic
import Mathlib.Algebra.Order.Field.Rat
import Mathlib.Data.List.Permutation
import Mathlib.Tactic.Linarith
import Mathlib.Tactic.Positivity
import Proviso.Proofs.Double.Range

namespace Proviso.Double

-- a sum starts at the zero of the core library, whatever else is in scope
attribute [local instance (2000)] Zero.ofOfNat0

/-! ## One rounding -/

/-- the magnitude nearest to `n` units, as if there were no largest one -/
def rounded (n : Nat) : Nat := unitsOfCode (nearestCode n 1)

/-- the nearest whole number is half a step away at most -/
theorem roundHalfEven_error (num : Nat) {den : Nat} (hden : 0 < den) :
    2 * (roundHalfEven num den * den) ≤ 2 * num + den ∧ 2 * num ≤ 2 * (roundHalfEven num den * den) + den := by
  have hdivision := Nat.div_add_mod' num den
  have hrest := Nat.mod_lt num hden
  have hsucc : (num / den + 1) * den = num / den * den + den := Nat.succ_mul _ _
  simp only [roundHalfEven]
  split
  · omega
  · rw [hsucc]
    omega

theorem rounded_of_no_cut {n : Nat} (h : cutDigits n = 0) : rounded n = n := by
  have hlt : n < 2 ^ 53 := by
    refine Nat.lt_of_lt_of_le Nat.lt_log2_self (Nat.pow_le_pow_right (by decide) ?_)
    unfold cutDigits at h
    omega
  rw [rounded, nearestCode_of_lt n hlt]
  rcases Nat.lt_or_ge n (2 ^ 52) with hsmall | hlarge
  · exact unitsOfCode_of_lt n hsmall
  · have hscaled := unitsOfCode_scaled 0 n hlarge hlt
    rwa [Nat.zero_mul, Nat.zero_add, Nat.pow_zero, Nat.mul_one] at hscaled

/-- where digits are cut off, what is kept stands before as many zeros -/
theorem rounded_of_cut {n : Nat} (h : 0 < cutDigits n) :
    rounded n = roundHalfEven n (2 ^ cutDigits n) * 2 ^ cutDigits n := by
  have hlow := le_roundHalfEven_cut n 1 (by rwa [Nat.div_one])
  have hhigh := roundHalfEven_le_carry n 1
  rw [Nat.div_one, Nat.one_mul] at hlow hhigh
  rw [rounded, nearestCode_eq, Nat.div_one, Nat.one_mul]
  rcases Nat.lt_or_eq_of_le hhigh with hlt | hcarry
  · exact unitsOfCode_scaled _ _ hlow hlt
  · -- a carry lands on the next exponent
    have hnext : cutDigits n * 2 ^ 52 + 2 ^ 53 = (cutDigits n + 1) * 2 ^ 52 + 2 ^ 52 := by omega
    rw [hcarry, hnext, unitsOfCode_scaled _ _ (Nat.le_refl _) (by decide)]
    generalize cutDigits n = cut
    calc 2 ^ 52 * 2 ^ (cut + 1) = 2 ^ 52 * (2 ^ cut * 2) := congrArg _ (Nat.pow_succ 2 cut)
      _ = 2 ^ 53 * 2 ^ cut := by omega

theorem two_pow_le_of_cut {n : Nat} (h : 0 < cutDigits n) : 2 ^ 52 * 2 ^ cutDigits n ≤ n := by
  have hne : n ≠ 0 := by
    rintro rfl
    exact absurd h (by decide)
  rw [← Nat.pow_add, ← Nat.le_log2 hne]
  unfold cutDigits at h ⊢
  omega

/-- **One rounding is wrong by 2^-53 of the exact result at most.** -/
theorem rounded_error (n : Nat) : 2 ^ 53 * rounded n ≤ 2 ^ 53 * n + n ∧ 2 ^ 53 * n ≤ 2 ^ 53 * rounded n + n := by
  rcases Nat.eq_zero_or_pos (cutDigits n) with hzero | hpos
  · rw [rounded_of_no_cut hzero]
    omega
  · have hstep := two_pow_le_of_cut hpos
    have herror := roundHalfEven_error n (Nat.two_pow_pos (cutDigits n))
    rw [rounded_of_cut hpos]
    omega

/-- what has zeros in place of the digits to be cut off is kept as it is -/
theorem rounded_of_dvd {n : Nat} (h : 2 ^ cutDigits n ∣ n) : rounded n = n := by
  rcases Nat.eq_zero_or_pos (cutDigits n) with hzero | hpos
  · exact rounded_of_no_cut hzero
  · obtain ⟨q, hq⟩ := h
    have hexact := roundHalfEven_mul q _ (Nat.two_pow_pos (cutDigits n))
    rw [Nat.mul_comm, ← hq] at hexact
    rw [rounded_of_cut hpos, hexact, Nat.mul_comm, ← hq]

/-- **Up to 2^53 times a power of two is kept as it is.** -/
theorem rounded_multiple {n k : Nat} (hdvd : 2 ^ k ∣ n) (hle : n ≤ 2 ^ 53 * 2 ^ k) : rounded n = n := by
  apply rounded_of_dvd
  rw [← Nat.pow_add] at hle
  rcases Nat.lt_or_eq_of_le hle with hlt | heq
  · have hcut : cutDigits n ≤ k := by
      by_cases hn : n = 0
      · subst hn
        exact Nat.zero_le k
      · have hlog := (Nat.log2_lt hn).2 hlt
        unfold cutDigits
        omega
    exact Nat.dvd_trans (Nat.pow_dvd_pow 2 hcut) hdvd
  · rw [heq, cutDigits, Nat.log2_two_pow]
    exact Nat.pow_dvd_pow 2 (by omega)

/-- a magnitude has 53 digits before some zeros, or it is smaller than all of these -/
theorem Finite.exists_digits (x : Finite) :
    x.magnitude < 2 ^ 52 ∨ ∃ q e, 2 ^ 52 ≤ q ∧ q < 2 ^ 53 ∧ x.magnitude = q * 2 ^ e := by
  obtain ⟨f, hf, hcode⟩ : ∃ f < 2 ^ 52, x.code = x.code / 2 ^ 52 * 2 ^ 52 + f :=
    ⟨x.code % 2 ^ 52, Nat.mod_lt _ (by decide), by omega⟩
  rw [magnitude, hcode]
  generalize x.code / 2 ^ 52 = e
  cases e with
  | zero =>
    rw [Nat.zero_mul, Nat.zero_add, unitsOfCode_of_lt f hf]
    exact .inl hf
  | succ e => exact .inr ⟨2 ^ 52 + f, e, by omega, by omega, unitsOfCode_of_exponent e f hf⟩

/-- the magnitude of a double needs no rounding -/
theorem rounded_magnitude (x : Finite) : rounded x.magnitude = x.magnitude := by
  rcases x.exists_digits with hsmall | ⟨q, e, -, hq, hdigits⟩
  · exact rounded_multiple (k := 0) (Nat.one_dvd _) (by omega)
  · rw [hdigits]
    exact rounded_multiple (Nat.dvd_mul_left _ _) (Nat.mul_le_mul_right _ (Nat.le_of_lt hq))

/-- a double of at least 53 digits before `k` zeros ends in them -/
theorem two_pow_dvd_magnitude {x : Finite} {k : Nat} (h : 2 ^ 52 * 2 ^ k ≤ x.magnitude) : 2 ^ k ∣ x.magnitude := by
  rcases x.exists_digits with hsmall | ⟨q, e, -, hq, hdigits⟩
  · have hpos := Nat.two_pow_pos k
    omega
  · rw [hdigits] at h ⊢
    have hlt : 2 ^ (52 + k) < 2 ^ (53 + e) :=
      calc 2 ^ (52 + k) = 2 ^ 52 * 2 ^ k := Nat.pow_add 2 52 k
        _ ≤ q * 2 ^ e := h
        _ < 2 ^ 53 * 2 ^ e := Nat.mul_lt_mul_of_pos_right hq (Nat.two_pow_pos e)
        _ = 2 ^ (53 + e) := (Nat.pow_add 2 53 e).symm
    have hexponent := (Nat.pow_lt_pow_iff_right (by decide)).1 hlt
    exact Nat.dvd_mul_left_of_dvd (Nat.pow_dvd_pow 2 (by omega)) _

theorem nearestCode_magnitude (x : Finite) : nearestCode x.magnitude 1 = x.code :=
  unitsOfCode_strictMono.injective (rounded_magnitude x)

/-- the value nearest to `n` units -/
def nearest (n : Int) : Int := if n < 0 then -(rounded n.natAbs : Int) else rounded n.natAbs

theorem nearest_of_rounded {n : Int} (h : rounded n.natAbs = n.natAbs) : nearest n = n := by
  rw [nearest, h]
  split <;> omega

theorem Finite.units_nearestCode {n : Int} (h : nearestCode n.natAbs 1 < finiteCodes) :
    Finite.units ⟨decide (n < 0), nearestCode n.natAbs 1, h⟩ = nearest n := by
  simp only [units, magnitude, nearest, rounded, decide_eq_true_eq]

theorem Finite.natAbs_units (x : Finite) : x.units.natAbs = x.magnitude := by
  rw [units]
  cases x.neg
  · exact Int.natAbs_natCast _
  · exact (Int.natAbs_neg _).trans (Int.natAbs_natCast _)

/-- **A sum of two doubles is the double nearest to the exact sum.** -/
theorem exists_add {x y : Finite} (h : (x.units + y.units).natAbs < overflowUnits) :
    ∃ z : Finite, (finite x).add (finite y) = .finite z ∧ z.units = nearest (x.units + y.units) := by
  rw [add]
  by_cases hzero : x.units + y.units = 0
  · rw [if_pos hzero, hzero]
    refine ⟨_, rfl, ?_⟩
    rw [nearest_of_rounded (rounded_of_no_cut rfl)]
    cases x.neg && y.neg <;> rfl
  · rw [if_neg hzero]
    generalize x.units + y.units = n at h ⊢
    have hcode := (nearestCode_lt_finiteCodes_iff Nat.one_pos).2 (by rwa [Nat.mul_one])
    rw [ofUnits_of_lt _ hcode]
    exact ⟨_, rfl, Finite.units_nearestCode hcode⟩

/-- a double is added to zero as it is; only a zero may lose its sign -/
theorem exists_zero_add (x : Finite) :
    ∃ z : Finite, (zero false).add (finite x) = .finite z ∧ z.units = x.units ∧ (z.neg = true → z.units < 0) := by
  have hzero : Finite.units ⟨false, 0, by decide⟩ = 0 := rfl
  have hadd : (zero false).add (finite x) =
      if x.units = 0 then zero (false && x.neg) else ofUnits (decide (x.units < 0)) x.units.natAbs 1 := by
    rw [zero, add, hzero, Int.zero_add]
  rw [hadd]
  split
  · next hx =>
    rw [Bool.false_and]
    exact ⟨_, rfl, hx.symm, fun hneg => Bool.noConfusion hneg⟩
  · next hx =>
    have hcode : nearestCode x.units.natAbs 1 < finiteCodes := by
      rw [x.natAbs_units, nearestCode_magnitude]
      exact x.bounded
    have hrounded := nearest_of_rounded (n := x.units) (by rw [x.natAbs_units, rounded_magnitude])
    have hunits := Finite.units_nearestCode hcode
    refine ⟨_, ofUnits_of_lt _ hcode, hunits.trans hrounded, fun hneg => ?_⟩
    rw [hunits, hrounded]
    exact of_decide_eq_true hneg

/-! ## Sums -/

/-- the exact sum of the values, in units -/
def total (ws : List Finite) : Int := (ws.map Finite.units).sum

/-- the exact sum of the magnitudes, in units -/
def bulk (ws : List Finite) : Nat := (ws.map Finite.magnitude).sum

theorem total_perm {ws vs : List Finite} (h : ws.Perm vs) : total ws = total vs := (h.map _).sum_eq

theorem bulk_perm {ws vs : List Finite} (h : ws.Perm vs) : bulk ws = bulk vs := (h.map _).sum_eq

theorem total_cons (w : Finite) (ws : List Finite) : total (w :: ws) = w.units + total ws := List.sum_cons

theorem bulk_cons (w : Finite) (ws : List Finite) : bulk (w :: ws) = w.magnitude + bulk ws := List.sum_cons

/-- Among the multiples of `d` up to `limit`, rounding gives a finite multiple of `d` that is wrong by the part `ε` at most. -/
structure Rounds (d : Nat) (limit ε : ℚ) : Prop where
  nonneg : 0 ≤ ε
  limited : limit < overflowUnits
  kept : ∀ n : Int, (d : Int) ∣ n → |(n : ℚ)| ≤ limit → (d : Int) ∣ nearest n
  error : ∀ n : Int, (d : Int) ∣ n → |(n : ℚ)| ≤ limit → |(nearest n : ℚ) - n| ≤ ε * |(n : ℚ)|

theorem abs_units (x : Finite) : |(x.units : ℚ)| = x.magnitude := by
  rw [← x.natAbs_units, Nat.cast_natAbs, Int.cast_abs]

variable {d : Nat} {limit ε : ℚ}

theorem Rounds.exists_add (h : Rounds d limit ε) {x y : Finite} (hx : (d : Int) ∣ x.units) (hy : (d : Int) ∣ y.units)
    (hlimit : |(x.units : ℚ) + y.units| ≤ limit) :
    ∃ z : Finite, (finite x).add (finite y) = .finite z ∧ (d : Int) ∣ z.units ∧
      |(z.units : ℚ) - (x.units + y.units)| ≤ ε * |(x.units : ℚ) + y.units| := by
  rw [← Int.cast_add] at hlimit ⊢
  have hrange : (x.units + y.units).natAbs < overflowUnits := by
    have hlt := lt_of_le_of_lt hlimit h.limited
    rw [← Int.cast_abs, ← Nat.cast_natAbs] at hlt
    exact_mod_cast hlt
  obtain ⟨z, hz, hunits⟩ := Double.exists_add hrange
  have hdvd := Int.dvd_add hx hy
  refine ⟨z, hz, ?_, ?_⟩
  · rw [hunits]
    exact h.kept _ hdvd hlimit
  · rw [hunits]
    exact h.error _ hdvd hlimit

/-- What is wrong after some terms grows by the factor `1 + ε` with each term more. -/
theorem Rounds.foldl_add (h : Rounds d limit ε) {ws : List Finite} {s : Finite} {t b g : ℚ} (hs : (d : Int) ∣ s.units)
    (hws : ∀ w ∈ ws, (d : Int) ∣ w.units) (hg : 1 ≤ g) (ht : |t| ≤ b) (herror : |s.units - t| ≤ (g - 1) * b)
    (hlimit : g * (1 + ε) ^ ws.length * (b + bulk ws) ≤ limit) :
    ∃ z : Finite, (ws.map finite).foldl add (.finite s) = .finite z ∧
      |z.units - (t + total ws)| ≤ (g * (1 + ε) ^ ws.length - 1) * (b + bulk ws) := by
  induction ws generalizing s t b g with
  | nil =>
    refine ⟨s, rfl, ?_⟩
    simpa [total, bulk] using herror
  | cons w ws ih =>
    have hε := h.nonneg
    have hw := abs_units w
    have hb : 0 ≤ b := le_trans (abs_nonneg t) ht
    have hm : (0 : ℚ) ≤ w.magnitude := Nat.cast_nonneg _
    have hrest : (0 : ℚ) ≤ bulk ws := Nat.cast_nonneg _
    have hpow : 1 ≤ (1 + ε) ^ (ws.length + 1) := one_le_pow₀ (by linarith)
    have hmore : ((bulk (w :: ws) : Nat) : ℚ) = w.magnitude + bulk ws := by rw [bulk_cons, Nat.cast_add]
    have hfactor : g * (1 + ε) ^ (ws.length + 1) = g * (1 + ε) * (1 + ε) ^ ws.length := by ring
    rw [List.length_cons, hmore, ← add_assoc] at hlimit ⊢
    -- the next sum is in range, as all the sums to come are
    have hsum : |(s.units : ℚ) + w.units| ≤ g * (b + w.magnitude) :=
      calc |(s.units : ℚ) + w.units| = |(s.units - t) + (t + w.units)| := by ring_nf
        _ ≤ |s.units - t| + (|t| + |(w.units : ℚ)|) := (abs_add_le _ _).trans (by gcongr; exact abs_add_le _ _)
        _ ≤ (g - 1) * b + (b + w.magnitude) := by rw [hw]; gcongr
        _ ≤ g * (b + w.magnitude) := by nlinarith
    have hrange : g * (b + w.magnitude) ≤ limit :=
      calc g * (b + w.magnitude) ≤ g * (1 + ε) ^ (ws.length + 1) * (b + w.magnitude + bulk ws) :=
            mul_le_mul (le_mul_of_one_le_right (by linarith) hpow) (by linarith) (by linarith) (by positivity)
        _ ≤ limit := hlimit
    obtain ⟨z, hz, hdvd, hround⟩ := h.exists_add hs (hws w List.mem_cons_self) (hsum.trans hrange)
    have hnext : |z.units - (t + w.units)| ≤ (g * (1 + ε) - 1) * (b + w.magnitude) :=
      calc |z.units - (t + w.units)| = |(z.units - (s.units + w.units)) + (s.units - t)| := by ring_nf
        _ ≤ |(z.units : ℚ) - (s.units + w.units)| + |s.units - t| := abs_add_le _ _
        _ ≤ ε * (g * (b + w.magnitude)) + (g - 1) * b := by gcongr; exact hround.trans (by gcongr)
        _ ≤ (g * (1 + ε) - 1) * (b + w.magnitude) := by nlinarith
    have htotal : |t + w.units| ≤ b + w.magnitude := (abs_add_le _ _).trans (by rw [hw]; gcongr)
    rw [hfactor] at hlimit ⊢
    obtain ⟨y, hy, herror'⟩ := ih hdvd (fun v hv => hws v (List.mem_cons_of_mem w hv))
      (one_le_mul_of_one_le_of_one_le hg (by linarith)) htotal hnext hlimit
    refine ⟨y, ?_, ?_⟩
    · rw [List.map_cons, List.foldl_cons, hz]
      exact hy
    · rw [total_cons, Int.cast_add, ← add_assoc]
      exact herror'

/-- the sum of multiples of `d`, each of them rounded up to a part `ε` -/
theorem Rounds.sum (h : Rounds d limit ε) {ws : List Finite} (hws : ∀ w ∈ ws, (d : Int) ∣ w.units)
    (hlimit : (1 + ε) ^ (ws.length - 1) * bulk ws ≤ limit) :
    ∃ z : Finite, sum (ws.map finite) = .finite z ∧
      |(z.units : ℚ) - total ws| ≤ ((1 + ε) ^ (ws.length - 1) - 1) * bulk ws := by
  cases ws with
  | nil =>
    refine ⟨_, rfl, ?_⟩
    simp [bulk, total, Finite.units, Finite.magnitude, unitsOfCode]
  | cons w ws =>
    obtain ⟨s, hs, hunits, -⟩ := exists_zero_add w
    have hdvd : (d : Int) ∣ s.units := hunits ▸ hws w List.mem_cons_self
    rw [List.length_cons, Nat.add_sub_cancel, bulk_cons, Nat.cast_add] at hlimit ⊢
    obtain ⟨z, hz, herror⟩ := h.foldl_add (t := w.units) (b := w.magnitude) (g := 1) hdvd
      (fun v hv => hws v (List.mem_cons_of_mem w hv)) le_rfl (abs_units w).le (by rw [hunits]; simp)
      (by rwa [one_mul])
    refine ⟨z, ?_, ?_⟩
    · rw [Double.sum, List.map_cons, List.foldl_cons, hs]
      exact hz
    · rw [one_mul] at herror
      rwa [total_cons, Int.cast_add]

/-! ## How far a sum lies from the exact one -/

/-- how much of an exact result one rounding changes at most, 2^-53 -/
def roundoff : ℚ := 1 / 2 ^ 53

theorem rounds_roundoff (h : limit < overflowUnits) : Rounds 1 limit roundoff := by
  have herror (n : Int) : |(nearest n : ℚ) - n| ≤ roundoff * |(n : ℚ)| := by
    obtain ⟨hhigh, hlow⟩ := rounded_error n.natAbs
    have hclose : 2 ^ 53 * (nearest n - n).natAbs ≤ n.natAbs := by
      unfold nearest
      split <;> omega
    have hcast : (2 ^ 53 : ℚ) * |(nearest n : ℚ) - n| ≤ |(n : ℚ)| := by
      rw [← Int.cast_sub, ← Int.cast_abs, ← Int.cast_abs, ← Nat.cast_natAbs, ← Nat.cast_natAbs]
      exact_mod_cast hclose
    unfold roundoff
    linarith
  exact ⟨by unfold roundoff; positivity, h, fun n _ _ => one_dvd _, fun n _ _ => herror n⟩

/-- up to 2^53 steps of a power of two are not rounded -/
theorem rounds_zero {k : Nat} (h : limit < overflowUnits) (hlimit : limit ≤ (2 ^ 53 * 2 ^ k : Nat)) :
    Rounds (2 ^ k) limit 0 := by
  have hexact (n : Int) (hdvd : ((2 ^ k : Nat) : Int) ∣ n) (hn : |(n : ℚ)| ≤ limit) : nearest n = n := by
    have hle := hn.trans hlimit
    rw [← Int.cast_abs, ← Nat.cast_natAbs] at hle
    exact nearest_of_rounded (rounded_multiple (Int.natCast_dvd.1 hdvd) (Nat.cast_le.1 hle))
  refine ⟨le_rfl, h, fun n hdvd hn => ?_, fun n hdvd hn => ?_⟩
  · rwa [hexact n hdvd hn]
  · rw [hexact n hdvd hn, sub_self, abs_zero, zero_mul]

/-- In every order the sum of these doubles is finite and lies within `e` units of the exact sum. -/
def SumsWithin (ws : List Finite) (e : ℚ) : Prop :=
  ∀ vs, ws.Perm vs → ∃ z : Finite, sum (vs.map finite) = .finite z ∧ |(z.units : ℚ) - total ws| ≤ e

/-- how far the roundings of a sum may carry it from the exact sum -/
def drift (ws : List Finite) : ℚ := ((1 + roundoff) ^ (ws.length - 1) - 1) * bulk ws

theorem sumsWithin_of_rounds (h : Rounds d limit ε) {ws : List Finite} (hws : ∀ w ∈ ws, (d : Int) ∣ w.units)
    (hlimit : (1 + ε) ^ (ws.length - 1) * bulk ws ≤ limit) :
    SumsWithin ws (((1 + ε) ^ (ws.length - 1) - 1) * bulk ws) := by
  intro vs hperm
  rw [total_perm hperm]
  rw [bulk_perm hperm, hperm.length_eq] at hlimit ⊢
  exact h.sum (fun v hv => hws v (hperm.mem_iff.2 hv)) hlimit

/-- **In every order a sum lies within its drift of the exact sum.** -/
theorem sumsWithin_drift {ws : List Finite} (h : bulk ws + drift ws < overflowUnits) : SumsWithin ws (drift ws) := by
  have hlimit : (1 + roundoff) ^ (ws.length - 1) * bulk ws = bulk ws + drift ws := by
    unfold drift
    ring
  exact sumsWithin_of_rounds (rounds_roundoff h) (fun w _ => one_dvd _) (le_of_eq hlimit)

/-- All are multiples of one power of two, and their magnitudes add up to 2^53 times that at most. -/
def OnGrid (ws : List Finite) : Prop :=
  ∃ k, (∀ w ∈ ws, 2 ^ k ∣ w.magnitude) ∧ bulk ws ≤ 2 ^ 53 * 2 ^ k ∧ bulk ws < overflowUnits

/-- **On such a grid every order gives the exact sum.** -/
theorem sumsWithin_zero {ws : List Finite} (h : OnGrid ws) : SumsWithin ws 0 := by
  obtain ⟨k, hdvd, hgrid, hrange⟩ := h
  have hrounds : Rounds (2 ^ k) (bulk ws) 0 := rounds_zero (Nat.cast_lt.2 hrange) (Nat.cast_le.2 hgrid)
  have hunits (w : Finite) (hw : w ∈ ws) : ((2 ^ k : Nat) : Int) ∣ w.units := by
    rw [Int.natCast_dvd, w.natAbs_units]
    exact hdvd w hw
  have hlimit : (1 + 0 : ℚ) ^ (ws.length - 1) * bulk ws ≤ bulk ws := by simp
  simpa using sumsWithin_of_rounds hrounds hunits hlimit

/-! ## Bounds -/

/-- A sum is clear of a bound when it is not rounded at all, or the exact sum is farther from the bound than its drift. -/
inductive Clear (ws : List Finite) (bound : Int) : Prop
  | exact (h : OnGrid ws)
  | apart (hrange : bulk ws + drift ws < overflowUnits) (h : drift ws < |(total ws : ℚ) - bound|)

/-- **On a bound that it is clear of, a sum in any order stands as the exact sum does.** -/
theorem Clear.le_iff {ws vs : List Finite} {bound : Int} (h : Clear ws bound) (hperm : ws.Perm vs) :
    ∃ z : Finite, sum (vs.map finite) = .finite z ∧ (bound ≤ z.units ↔ bound ≤ total ws) ∧
      (z.units ≤ bound ↔ total ws ≤ bound) := by
  cases h with
  | exact h =>
    obtain ⟨z, hz, herror⟩ := sumsWithin_zero h vs hperm
    have hexact : z.units = total ws := by
      have := abs_nonpos_iff.1 herror
      exact_mod_cast sub_eq_zero.1 this
    exact ⟨z, hz, by rw [hexact], by rw [hexact]⟩
  | apart hrange h =>
    obtain ⟨z, hz, herror⟩ := sumsWithin_drift hrange vs hperm
    refine ⟨z, hz, ?_⟩
    obtain ⟨hlow, hhigh⟩ := abs_le.1 herror
    rw [← Int.cast_le (R := ℚ), ← Int.cast_le (R := ℚ), ← Int.cast_le (R := ℚ), ← Int.cast_le (R := ℚ)]
    rcases lt_abs.1 h with habove | hbelow
    · constructor <;> constructor <;> intro <;> linarith
    · constructor <;> constructor <;> intro <;> linarith

/-! ## Two terms -/

/-- a term that is negative only below zero adds up to zero with none that is negative -/
theorem Finite.neg_and_neg {x y : Finite} (hx : x.neg = true → x.units < 0) (h : x.units + y.units = 0) :
    (x.neg && y.neg) = false := by
  rw [← Bool.not_eq_true, Bool.and_eq_true]
  rintro ⟨hneg, hneg'⟩
  have hlt := hx hneg
  have hle : y.units ≤ 0 := by
    rw [units, if_pos hneg']
    omega
  omega

/-- **The order of two terms does not matter.** -/
theorem sum_pair_comm (x y : Finite) : sum [.finite x, .finite y] = sum [.finite y, .finite x] := by
  obtain ⟨s, hs, hunits, hneg⟩ := exists_zero_add x
  obtain ⟨s', hs', hunits', hneg'⟩ := exists_zero_add y
  have hsum : s.units + y.units = s'.units + x.units := by rw [hunits, hunits', Int.add_comm]
  have hpair : (finite s).add (finite y) = (finite s').add (finite x) := by
    rw [add, add, hsum]
    by_cases h : s'.units + x.units = 0
    · rw [if_pos h, if_pos h, Finite.neg_and_neg hneg (hsum.trans h), Finite.neg_and_neg hneg' h]
    · rw [if_neg h, if_neg h]
  calc sum [.finite x, .finite y] = (finite s).add (finite y) := by rw [← hs]; rfl
    _ = (finite s').add (finite x) := hpair
    _ = sum [.finite y, .finite x] := by rw [← hs']; rfl

/-- up to two terms give one sum in either order -/
theorem sum_perm_of_length_le_two {ws vs : List Finite} (hlength : ws.length ≤ 2) (hperm : ws.Perm vs) :
    sum (ws.map finite) = sum (vs.map finite) := by
  match ws, hlength with
  | [], _ => rw [List.nil_perm.1 hperm]
  | [w], _ => rw [List.singleton_perm.1 hperm]
  | [x, y], _ =>
    rcases List.perm_pair.1 hperm.symm with rfl | rfl
    · rfl
    · exact sum_pair_comm x y

end Proviso.Double
