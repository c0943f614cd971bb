/-
Rounding keeps order.

A larger code is a larger magnitude (`unitsOfCode_strictMono`), and a larger quotient never has a smaller nearest code
(`nearestCode_mono`): within one number of digits rounding is monotone, and with more digits the result is past
everything that fewer digits can give. So the nearest doubles of two integers stand in the order of the integers, unless
both are the same double (`compare_ofInt`). Integers up to 2^53 are doubles themselves (`nearestUnits_of_le`), so
different ones have different doubles (`ofInt_inj`).
-/
import Mathlib.Order.Monotone.Basic
import Proviso.Double

namespace Proviso.Double

/-! ## Codes and magnitudes -/

theorem unitsOfCode_of_exponent (e f : Nat) (hf : f < 2 ^ 52) :
    unitsOfCode ((e + 1) * 2 ^ 52 + f) = (2 ^ 52 + f) * 2 ^ e := by
  have hexponent : ((e + 1) * 2 ^ 52 + f) / 2 ^ 52 = e + 1 := by omega
  have hfraction : ((e + 1) * 2 ^ 52 + f) % 2 ^ 52 = f := by omega
  simp [unitsOfCode, hexponent, hfraction]

theorem unitsOfCode_of_lt (f : Nat) (hf : f < 2 ^ 52) : unitsOfCode f = f := by
  have hexponent : f / 2 ^ 52 = 0 := by omega
  have hfraction : f % 2 ^ 52 = f := by omega
  simp [unitsOfCode, hexponent, hfraction]

/-- the units of a code that is written as a number of 53 digits and a power of two -/
theorem unitsOfCode_scaled (s q : Nat) (hlow : 2 ^ 52 ≤ q) (hhigh : q < 2 ^ 53) :
    unitsOfCode (s * 2 ^ 52 + q) = q * 2 ^ s := by
  have hcode : s * 2 ^ 52 + q = (s + 1) * 2 ^ 52 + (q - 2 ^ 52) := by omega
  rw [hcode, unitsOfCode_of_exponent s (q - 2 ^ 52) (by omega), Nat.add_sub_cancel' hlow]

theorem unitsOfCode_lt_succ (code : Nat) : unitsOfCode code < unitsOfCode (code + 1) := by
  obtain ⟨f, hf, hcode⟩ : ∃ f < 2 ^ 52, code = code / 2 ^ 52 * 2 ^ 52 + f :=
    ⟨code % 2 ^ 52, Nat.mod_lt _ (by decide), by omega⟩
  generalize code / 2 ^ 52 = e at hcode
  subst hcode
  -- the next code has the next fraction, or after the last fraction the next exponent
  by_cases hlast : f + 1 < 2 ^ 52
  · cases e with
    | zero =>
      rw [Nat.zero_mul, Nat.zero_add, unitsOfCode_of_lt f hf, unitsOfCode_of_lt (f + 1) hlast]
      exact Nat.lt_succ_self f
    | succ e =>
      rw [Nat.add_assoc, unitsOfCode_of_exponent e f hf, unitsOfCode_of_exponent e (f + 1) hlast]
      exact Nat.mul_lt_mul_of_pos_right (by omega) (Nat.two_pow_pos e)
  · have hnext : e * 2 ^ 52 + f + 1 = (e + 1) * 2 ^ 52 + 0 := by omega
    rw [hnext, unitsOfCode_of_exponent e 0 (by decide)]
    cases e with
    | zero =>
      rw [Nat.zero_mul, Nat.zero_add, unitsOfCode_of_lt f hf]
      omega
    | succ e =>
      rw [unitsOfCode_of_exponent e f hf, Nat.pow_succ]
      have hpos := Nat.two_pow_pos e
      calc (2 ^ 52 + f) * 2 ^ e < (2 ^ 52 + 0) * 2 * 2 ^ e := Nat.mul_lt_mul_of_pos_right (by omega) hpos
        _ = (2 ^ 52 + 0) * (2 ^ e * 2) := by rw [Nat.mul_assoc, Nat.mul_comm 2]

theorem unitsOfCode_strictMono : StrictMono unitsOfCode := strictMono_nat_of_lt_succ unitsOfCode_lt_succ

/-! ## Rounding -/

theorem le_roundHalfEven (num den : Nat) : num / den ≤ roundHalfEven num den := by
  simp only [roundHalfEven]
  split <;> omega

theorem roundHalfEven_le (num den : Nat) : roundHalfEven num den ≤ num / den + 1 := by
  simp only [roundHalfEven]
  split <;> omega

theorem roundHalfEven_mono {num num' : Nat} (h : num ≤ num') (den : Nat) :
    roundHalfEven num den ≤ roundHalfEven num' den := by
  have hquotient : num / den ≤ num' / den := Nat.div_le_div_right h
  rcases Nat.lt_or_eq_of_le hquotient with hlt | heq
  · have hup := roundHalfEven_le num den
    have hlow := le_roundHalfEven num' den
    omega
  · -- with one quotient the larger number leaves the larger rest
    have hrest : num % den ≤ num' % den := by
      have hnum := Nat.div_add_mod num den
      have hnum' := Nat.div_add_mod num' den
      rw [heq] at hnum
      omega
    simp only [roundHalfEven, heq]
    split <;> split <;> omega

/-- how many of the lowest digits of a quotient are rounded away -/
def cutDigits (w : Nat) : Nat := w.log2 - 52

theorem nearestCode_eq (num den : Nat) :
    nearestCode num den = cutDigits (num / den) * 2 ^ 52 + roundHalfEven num (den * 2 ^ cutDigits (num / den)) := rfl

theorem cutDigits_mono {w w' : Nat} (h : w ≤ w') : cutDigits w ≤ cutDigits w' := by
  unfold cutDigits
  by_cases hw : w = 0
  · subst hw
    simp
  · have hw' : w' ≠ 0 := by omega
    have hlog : w.log2 ≤ w'.log2 := (Nat.le_log2 hw').2 (Nat.le_trans (Nat.log2_self_le hw) h)
    omega

/-- what is kept of a quotient has at most 53 digits, or is 2^53 after a carry -/
theorem roundHalfEven_le_carry (num den : Nat) : roundHalfEven num (den * 2 ^ cutDigits (num / den)) ≤ 2 ^ 53 := by
  have hlt : num / den < 2 ^ 53 * 2 ^ cutDigits (num / den) := by
    rw [← Nat.pow_add]
    refine Nat.lt_of_lt_of_le Nat.lt_log2_self (Nat.pow_le_pow_right (by decide) ?_)
    unfold cutDigits
    omega
  have hkept : num / (den * 2 ^ cutDigits (num / den)) < 2 ^ 53 := by
    rw [← Nat.div_div_eq_div_mul]
    exact Nat.div_lt_of_lt_mul (by rwa [Nat.mul_comm])
  have := roundHalfEven_le num (den * 2 ^ cutDigits (num / den))
  omega

/-- when digits are rounded away, 53 of them are kept -/
theorem le_roundHalfEven_cut (num den : Nat) (hcut : 0 < cutDigits (num / den)) :
    2 ^ 52 ≤ roundHalfEven num (den * 2 ^ cutDigits (num / den)) := by
  have hne : num / den ≠ 0 := by
    intro h
    simp [cutDigits, h] at hcut
  have hle : 2 ^ 52 * 2 ^ cutDigits (num / den) ≤ num / den := by
    rw [← Nat.pow_add]
    refine Nat.le_trans (Nat.pow_le_pow_right (by decide) ?_) (Nat.log2_self_le hne)
    unfold cutDigits at hcut ⊢
    omega
  have hkept : 2 ^ 52 ≤ num / (den * 2 ^ cutDigits (num / den)) := by
    rw [← Nat.div_div_eq_div_mul]
    exact (Nat.le_div_iff_mul_le (Nat.two_pow_pos _)).2 hle
  exact Nat.le_trans hkept (le_roundHalfEven _ _)

/-- **Rounding is monotone.** -/
theorem nearestCode_mono {num num' : Nat} (h : num ≤ num') (den : Nat) : nearestCode num den ≤ nearestCode num' den := by
  have hcut := cutDigits_mono (Nat.div_le_div_right (c := den) h)
  rw [nearestCode_eq, nearestCode_eq]
  rcases Nat.lt_or_eq_of_le hcut with hlt | heq
  · have hup := roundHalfEven_le_carry num den
    have hlow := le_roundHalfEven_cut num' den (by omega)
    omega
  · rw [heq]
    exact Nat.add_le_add_left (roundHalfEven_mono h _) _

/-- the magnitude at which a new exponent starts -/
theorem unitsOfCode_exponent (e : Nat) : unitsOfCode ((e + 1) * 2 ^ 52) = 2 ^ 52 * 2 ^ e := by
  have h := unitsOfCode_of_exponent e 0 (by decide)
  rwa [Nat.add_zero] at h

theorem natCast_unitsOfCode_exponent (e : Nat) : (unitsOfCode ((e + 1) * 2 ^ 52) : Int) = 2 ^ (52 + e) := by
  rw [unitsOfCode_exponent, ← Nat.pow_add, Int.natCast_pow]
  rfl

/-- infinity stands where the code after the last finite one would -/
theorem infinityUnits_eq : infinityUnits = (unitsOfCode finiteCodes : Int) := (natCast_unitsOfCode_exponent 2046).symm

/-- the magnitude of the double nearest to `num / den` units, where infinity stands for all that is too large -/
def nearestUnits (num den : Nat) : Nat := min (unitsOfCode (nearestCode num den)) (unitsOfCode finiteCodes)

theorem nearestUnits_mono {num num' : Nat} (h : num ≤ num') (den : Nat) :
    nearestUnits num den ≤ nearestUnits num' den := by
  have := unitsOfCode_strictMono.monotone (nearestCode_mono h den)
  unfold nearestUnits
  omega

theorem ofUnits_of_lt (neg : Bool) {num den : Nat} (h : nearestCode num den < finiteCodes) :
    ofUnits neg num den = .finite ⟨neg, nearestCode num den, h⟩ := dif_pos h

theorem ofUnits_of_not_lt (neg : Bool) {num den : Nat} (h : ¬ nearestCode num den < finiteCodes) :
    ofUnits neg num den = .infinite neg := dif_neg h

theorem key_ofUnits (neg : Bool) (num den : Nat) :
    (ofUnits neg num den).key = some (if neg then -(nearestUnits num den : Int) else nearestUnits num den) := by
  by_cases h : nearestCode num den < finiteCodes
  · have hunits : nearestUnits num den = unitsOfCode (nearestCode num den) :=
      Nat.min_eq_left (Nat.le_of_lt (unitsOfCode_strictMono h))
    rw [ofUnits_of_lt neg h, key, hunits]
    rfl
  · have hunits : nearestUnits num den = unitsOfCode finiteCodes :=
      Nat.min_eq_right (unitsOfCode_strictMono.monotone (Nat.le_of_not_lt h))
    rw [ofUnits_of_not_lt neg h, key, hunits, infinityUnits_eq]

theorem ofUnits_congr (neg : Bool) {num den num' den' : Nat} (h : nearestUnits num den = nearestUnits num' den') :
    ofUnits neg num den = ofUnits neg num' den' := by
  have hiff := unitsOfCode_strictMono.lt_iff_lt (a := nearestCode num den) (b := finiteCodes)
  have hiff' := unitsOfCode_strictMono.lt_iff_lt (a := nearestCode num' den') (b := finiteCodes)
  unfold nearestUnits at h
  by_cases hfinite : nearestCode num den < finiteCodes
  · have hunits : unitsOfCode (nearestCode num den) = unitsOfCode (nearestCode num' den') := by omega
    have hcode := unitsOfCode_strictMono.injective hunits
    simp only [ofUnits, hcode]
  · have hfinite' : ¬ nearestCode num' den' < finiteCodes := by omega
    rw [ofUnits_of_not_lt neg hfinite, ofUnits_of_not_lt neg hfinite']

/-! ## Numbers of 53 digits -/

theorem cutDigits_scaled (s q : Nat) (hlow : 2 ^ 52 ≤ q) (hhigh : q < 2 ^ 53) : cutDigits (q * 2 ^ s) = s := by
  have hpos := Nat.two_pow_pos s
  have hne : q * 2 ^ s ≠ 0 := Nat.mul_ne_zero (by omega) (by omega)
  have hge : 52 + s ≤ (q * 2 ^ s).log2 := by
    rw [Nat.le_log2 hne, Nat.pow_add]
    exact Nat.mul_le_mul_right _ hlow
  have hlt : (q * 2 ^ s).log2 < 53 + s := by
    rw [Nat.log2_lt hne, Nat.pow_add]
    exact Nat.mul_lt_mul_of_pos_right hhigh hpos
  unfold cutDigits
  omega

/-- a number of 53 digits and a power of two, as long as it is not too large, is a double -/
theorem nearestUnits_scaled (s q : Nat) (hlow : 2 ^ 52 ≤ q) (hhigh : q < 2 ^ 53) (hs : s < 2046) :
    nearestUnits (q * 2 ^ s) 1 = q * 2 ^ s := by
  have hcode : nearestCode (q * 2 ^ s) 1 = s * 2 ^ 52 + q := by
    rw [nearestCode_eq, Nat.div_one, cutDigits_scaled s q hlow hhigh, Nat.one_mul,
      roundHalfEven_mul _ _ (Nat.two_pow_pos s)]
  have hfinite : s * 2 ^ 52 + q < finiteCodes := by
    unfold finiteCodes
    omega
  unfold nearestUnits
  rw [hcode, Nat.min_eq_left (Nat.le_of_lt (unitsOfCode_strictMono hfinite)), unitsOfCode_scaled s q hlow hhigh]

/-- the digits of a number, moved up until there are 53 of them -/
theorem exists_scaled (k : Nat) (hpos : 0 < k) (hk : k ≤ 2 ^ 53) (j : Nat) (hj : 52 ≤ j) :
    ∃ s q, 2 ^ 52 ≤ q ∧ q < 2 ^ 53 ∧ s ≤ j + 1 ∧ k * 2 ^ j = q * 2 ^ s := by
  rcases Nat.lt_or_eq_of_le hk with hlt | heq
  · have hne : k ≠ 0 := by omega
    have hlog : k.log2 < 53 := (Nat.log2_lt hne).2 hlt
    have hup : 2 ^ 52 = 2 ^ k.log2 * 2 ^ (52 - k.log2) := by
      rw [← Nat.pow_add, Nat.add_sub_cancel' (by omega)]
    refine ⟨k.log2 + j - 52, k * 2 ^ (52 - k.log2), ?_, ?_, by omega, ?_⟩
    · rw [hup]
      exact Nat.mul_le_mul_right _ (Nat.log2_self_le hne)
    · calc k * 2 ^ (52 - k.log2) < 2 ^ (k.log2 + 1) * 2 ^ (52 - k.log2) :=
            Nat.mul_lt_mul_of_pos_right Nat.lt_log2_self (Nat.two_pow_pos _)
        _ = 2 * 2 ^ 52 := by rw [hup, Nat.pow_succ, Nat.mul_comm (2 ^ k.log2), Nat.mul_assoc]
        _ = 2 ^ 53 := by decide
    · have hexponent : j = (52 - k.log2) + (k.log2 + j - 52) := by omega
      rw [Nat.mul_assoc, ← Nat.pow_add, ← hexponent]
  · refine ⟨j + 1, 2 ^ 52, Nat.le_refl _, by decide, Nat.le_refl _, ?_⟩
    rw [heq, Nat.pow_succ 2 j, Nat.mul_comm (2 ^ j), ← Nat.mul_assoc]

/-- integers up to 2^53 times a power of two, as long as it is neither too large nor too small, are doubles -/
theorem nearestUnits_shifted (k : Nat) (hk : k ≤ 2 ^ 53) (j : Nat) (hlow : 52 ≤ j) (hhigh : j < 2045) :
    nearestUnits (k * 2 ^ j) 1 = k * 2 ^ j := by
  rcases Nat.eq_zero_or_pos k with rfl | hpos
  · rw [Nat.zero_mul, nearestUnits, nearestCode_of_lt 0 (by decide), unitsOfCode_of_lt 0 (by decide), Nat.zero_min]
  · obtain ⟨s, q, hq, hq', hs, hkq⟩ := exists_scaled k hpos hk j hlow
    rw [hkq]
    exact nearestUnits_scaled s q hq hq' (by omega)

/-- **Integers up to 2^53 are doubles.** -/
theorem nearestUnits_of_le (k : Nat) (hk : k ≤ 2 ^ 53) : nearestUnits (k * one) 1 = k * one := by
  unfold one
  exact nearestUnits_shifted k hk 1074 (by decide) (by decide)

/-! ## Doubles of integers -/

/-- where the double nearest to an integer stands, in units -/
def intUnits (n : Int) : Int :=
  if n < 0 then -(nearestUnits (n.natAbs * one) 1 : Int) else nearestUnits (n.natAbs * one) 1

theorem key_ofInt (n : Int) : (ofInt n).key = some (intUnits n) := by
  rw [ofInt, key_ofUnits, intUnits]
  simp only [decide_eq_true_eq]

theorem nearestUnits_int_mono {k k' : Nat} (h : k ≤ k') : nearestUnits (k * one) 1 ≤ nearestUnits (k' * one) 1 :=
  nearestUnits_mono (Nat.mul_le_mul_right _ h) 1

theorem intUnits_mono {m n : Int} (h : m ≤ n) : intUnits m ≤ intUnits n := by
  unfold intUnits
  by_cases hm : m < 0
  · by_cases hn : n < 0
    · have := nearestUnits_int_mono (show n.natAbs ≤ m.natAbs by omega)
      rw [if_pos hm, if_pos hn]
      omega
    · rw [if_pos hm, if_neg hn]
      omega
  · have hn : ¬ n < 0 := by omega
    have := nearestUnits_int_mono (show m.natAbs ≤ n.natAbs by omega)
    rw [if_neg hm, if_neg hn]
    omega

theorem pos_one : 0 < one := by
  unfold one
  apply Nat.two_pow_pos

theorem nearestUnits_pos {k : Nat} (hk : 0 < k) : 0 < nearestUnits (k * one) 1 := by
  have hone := nearestUnits_of_le 1 (by decide)
  have hmono := nearestUnits_int_mono (show 1 ≤ k from hk)
  have hpos := pos_one
  omega

theorem ofInt_eq_iff (m n : Int) : ofInt m = ofInt n ↔ intUnits m = intUnits n := by
  constructor
  · intro h
    have hkey := congrArg key h
    rw [key_ofInt, key_ofInt] at hkey
    exact Option.some.inj hkey
  · -- a negative integer is not rounded to zero, so equal units have the same sign
    intro h
    unfold intUnits at h
    unfold ofInt
    by_cases hm : m < 0
    · have hmpos := nearestUnits_pos (show 0 < m.natAbs by omega)
      by_cases hn : n < 0
      · rw [if_pos hm, if_pos hn] at h
        rw [decide_eq_true hm, decide_eq_true hn]
        exact ofUnits_congr true (by omega)
      · rw [if_pos hm, if_neg hn] at h
        omega
    · by_cases hn : n < 0
      · have hnpos := nearestUnits_pos (show 0 < n.natAbs by omega)
        rw [if_neg hm, if_pos hn] at h
        omega
      · rw [if_neg hm, if_neg hn] at h
        rw [decide_eq_false hm, decide_eq_false hn]
        exact ofUnits_congr false (by omega)

theorem compare_of_key {a b : Double} {x y : Int} (ha : a.key = some x) (hb : b.key = some y) :
    a.compare b = some (Ord.compare x y) := by
  unfold compare
  rw [ha, hb]

/-- **Rounding keeps order.** The nearest doubles of two integers are in the order of the integers, unless they are one
and the same. -/
theorem compare_ofInt (m n : Int) :
    (ofInt m).compare (ofInt n) = some (if ofInt m = ofInt n then .eq else Ord.compare m n) := by
  rw [compare_of_key (key_ofInt m) (key_ofInt n)]
  by_cases heq : ofInt m = ofInt n
  · rw [if_pos heq, (ofInt_eq_iff m n).1 heq, Int.compare_eq_eq.2 rfl]
  · have hunits : intUnits m ≠ intUnits n := fun h => heq ((ofInt_eq_iff m n).2 h)
    have hne : m ≠ n := fun h => heq (congrArg ofInt h)
    rw [if_neg heq]
    rcases Int.lt_or_gt_of_ne hne with hlt | hgt
    · have hle := intUnits_mono (Int.le_of_lt hlt)
      rw [Int.compare_eq_lt.2 hlt, Int.compare_eq_lt.2 (by omega)]
    · have hle := intUnits_mono (Int.le_of_lt hgt)
      rw [Int.compare_eq_gt.2 hgt, Int.compare_eq_gt.2 (by omega)]

theorem intUnits_of_le {n : Int} (hn : n.natAbs ≤ 2 ^ 53) : intUnits n = n * one := by
  unfold intUnits
  rw [nearestUnits_of_le _ hn]
  by_cases h : n < 0
  · have habs : (n.natAbs : Int) = -n := by omega
    rw [if_pos h, Int.natCast_mul, habs, Int.neg_mul, Int.neg_neg]
  · have habs : (n.natAbs : Int) = n := by omega
    rw [if_neg h, Int.natCast_mul, habs]

/-- **Up to 2^53 rounding tells integers apart.** -/
theorem ofInt_inj {m n : Int} (hm : m.natAbs ≤ 2 ^ 53) (hn : n.natAbs ≤ 2 ^ 53) : ofInt m = ofInt n ↔ m = n := by
  rw [ofInt_eq_iff, intUnits_of_le hm, intUnits_of_le hn]
  have hpos := pos_one
  exact Int.mul_eq_mul_right_iff (by omega)

end Proviso.Double
