/-
Thousandths of integers, held against integers.

A number of seconds is a thousandth of a whole number of milliseconds and hardly ever a double, so it is rounded. Below 2^43
that does no harm: between an integer and the thousandths next to it stand doubles, the integer plus or minus 1/1024, and
rounding does not carry past them (`nearestUnits_lt_thousandth`, `thousandth_lt_nearestUnits`). So the order of a rounded
thousandth and a rounded integer is that of the exact numbers (`compare_thousandth`), however large the integer is.
-/
import Proviso.Double.Wide
import Proviso.Proofs.Double.Rounding

namespace Proviso.Double

variable {num den k m q : Nat}

/-! ## Quotients -/

theorem roundHalfEven_mul_right {c : Nat} (hc : 0 < c) (num den : Nat) :
    roundHalfEven (num * c) (den * c) = roundHalfEven num den := by
  have hhalf : 2 * (num % den * c) = 2 * (num % den) * c := (Nat.mul_assoc _ _ _).symm
  simp only [roundHalfEven, Nat.mul_div_mul_right _ _ hc, Nat.mul_mod_mul_right, hhalf, Nat.mul_lt_mul_right hc,
    Nat.mul_left_inj (Nat.ne_of_gt hc)]

/-- a common factor cancels before rounding -/
theorem nearestUnits_mul_right {c : Nat} (hc : 0 < c) (num den : Nat) :
    nearestUnits (num * c) (den * c) = nearestUnits num den := by
  rw [nearestUnits, nearestUnits, nearestCode_eq, nearestCode_eq, Nat.mul_div_mul_right _ _ hc, Nat.mul_right_comm den,
    roundHalfEven_mul_right hc]

/-! ## Thousandths -/

/-- the magnitude of the double nearest to the thousandth of an integer -/
def thousandthUnits (k : Nat) : Nat := nearestUnits (k * one * one) (1000 * one)

theorem pos_thousand : 0 < 1000 * one := Nat.mul_pos (by decide) pos_one

theorem thousandthUnits_mul (m : Nat) : thousandthUnits (1000 * m) = nearestUnits (m * one) 1 := by
  have hnum : 1000 * m * one * one = m * one * (1000 * one) := by
    simp only [Nat.mul_assoc, Nat.mul_comm, Nat.mul_left_comm]
  have hcancel := nearestUnits_mul_right pos_thousand (m * one) 1
  rwa [Nat.one_mul, ← hnum] at hcancel

/-- 1/1024 in units -/
def gridStep : Nat := 2 ^ 1064

theorem pos_gridStep : 0 < gridStep := by
  unfold gridStep
  apply Nat.two_pow_pos

theorem one_eq : one = 1024 * gridStep := by
  have h : 2 ^ (10 + 1064) = 2 ^ 10 * 2 ^ 1064 := Nat.pow_add 2 10 1064
  simp only [Nat.reduceAdd, show 2 ^ 10 = 1024 from rfl] at h
  unfold one gridStep
  exact h

/-- up to 2^53 steps of 1/1024 are a double; a quotient like that of a thousandth has it, too -/
theorem nearestUnits_grid (hq : q ≤ 2 ^ 53) : nearestUnits (q * gridStep * (1000 * one)) (1000 * one) = q * gridStep := by
  have hcancel := nearestUnits_mul_right pos_thousand (q * gridStep) 1
  have hshifted : nearestUnits (q * gridStep) 1 = q * gridStep := by
    unfold gridStep
    exact nearestUnits_shifted q hq 1064 (by decide) (by decide)
  rw [Nat.one_mul] at hcancel
  exact hcancel.trans hshifted

/-- thousandths and steps of the grid over one denominator -/
theorem common_denominator (k q : Nat) : k * one * one = 1024 * k * (gridStep * one) ∧
    q * gridStep * (1000 * one) = 1000 * q * (gridStep * one) := by
  constructor
  · calc k * one * one = k * (1024 * gridStep) * one := by rw [← one_eq]
      _ = 1024 * k * (gridStep * one) := by simp only [Nat.mul_assoc, Nat.mul_comm, Nat.mul_left_comm]
  · simp only [Nat.mul_assoc, Nat.mul_comm, Nat.mul_left_comm]

theorem grid_le_thousandth (hq : q ≤ 2 ^ 53) (h : 1000 * q ≤ 1024 * k) : q * gridStep ≤ thousandthUnits k := by
  obtain ⟨hthousandth, hgrid⟩ := common_denominator k q
  rw [← nearestUnits_grid hq, thousandthUnits, hthousandth, hgrid]
  exact nearestUnits_mono (Nat.mul_le_mul_right _ h) _

theorem thousandth_le_grid (hq : q ≤ 2 ^ 53) (h : 1024 * k ≤ 1000 * q) : thousandthUnits k ≤ q * gridStep := by
  obtain ⟨hthousandth, hgrid⟩ := common_denominator k q
  rw [← nearestUnits_grid hq, thousandthUnits, hthousandth, hgrid]
  exact nearestUnits_mono (Nat.mul_le_mul_right _ h) _

theorem nearestUnits_eq_grid (hm : m ≤ 2 ^ 53) : nearestUnits (m * one) 1 = 1024 * m * gridStep := by
  rw [nearestUnits_of_le m hm, one_eq, ← Nat.mul_assoc, Nat.mul_comm m]

/-- a thousandth above an integer stays above it -/
theorem nearestUnits_lt_thousandth (h : 1000 * m < k) (hk : k < 1000 * 2 ^ 43) :
    nearestUnits (m * one) 1 < thousandthUnits k := by
  rw [nearestUnits_eq_grid (by omega)]
  calc 1024 * m * gridStep < (1024 * m + 1) * gridStep :=
        Nat.mul_lt_mul_of_pos_right (Nat.lt_succ_self _) pos_gridStep
    _ ≤ thousandthUnits k := grid_le_thousandth (by omega) (by omega)

/-- a thousandth below an integer stays below it -/
theorem thousandth_lt_nearestUnits (h : k < 1000 * m) (hk : k < 1000 * 2 ^ 43) :
    thousandthUnits k < nearestUnits (m * one) 1 := by
  -- an integer past 2^43 is past 2^43 itself, from where there is one grid for both
  obtain ⟨n, hn⟩ : ∃ n, n = min m (2 ^ 43) := ⟨_, rfl⟩
  calc thousandthUnits k ≤ (1024 * n - 1) * gridStep := thousandth_le_grid (by omega) (by omega)
    _ < 1024 * n * gridStep := Nat.mul_lt_mul_of_pos_right (by omega) pos_gridStep
    _ = nearestUnits (n * one) 1 := (nearestUnits_eq_grid (by omega)).symm
    _ ≤ nearestUnits (m * one) 1 := nearestUnits_int_mono (by omega)

theorem thousandthUnits_pos (hpos : 0 < k) (hk : k < 1000 * 2 ^ 43) : 0 < thousandthUnits k :=
  Nat.lt_of_le_of_lt (Nat.zero_le _) (nearestUnits_lt_thousandth (m := 0) hpos hk)

/-! ## Doubles -/

theorem mul_pow_lt_exponent {n j e : Nat} (hn : n ≤ 2 ^ 53) (h : j + 1 < e) :
    n * 2 ^ j < unitsOfCode ((e + 1) * 2 ^ 52) := by
  rw [unitsOfCode_exponent, ← Nat.pow_add]
  calc n * 2 ^ j ≤ 2 ^ 53 * 2 ^ j := Nat.mul_le_mul_right _ hn
    _ = 2 ^ (53 + j) := (Nat.pow_add 2 53 j).symm
    _ < 2 ^ (52 + e) := Nat.pow_lt_pow_right (by decide) (by omega)

theorem mul_one_lt_finite {n : Nat} (hn : n ≤ 2 ^ 53) : n * one < unitsOfCode finiteCodes := by
  have hlast : finiteCodes = (2046 + 1) * 2 ^ 52 := rfl
  rw [hlast]
  unfold one
  apply mul_pow_lt_exponent hn
  decide

/-- an integer up to 2^53 is a finite double with its own sign and magnitude -/
theorem ofInt_eq_finite {n : Int} (hn : n.natAbs ≤ 2 ^ 53) :
    ∃ x : Finite, ofInt n = .finite x ∧ x.neg = decide (n < 0) ∧ x.magnitude = n.natAbs * one := by
  have hunits := nearestUnits_of_le _ hn
  have hsmall := mul_one_lt_finite hn
  unfold nearestUnits at hunits
  have hcode : unitsOfCode (nearestCode (n.natAbs * one) 1) = n.natAbs * one := by omega
  have hfinite : nearestCode (n.natAbs * one) 1 < finiteCodes := by
    rw [← unitsOfCode_strictMono.lt_iff_lt, hcode]
    exact hsmall
  exact ⟨⟨_, _, hfinite⟩, ofUnits_of_lt _ hfinite, rfl, hcode⟩

theorem key_thousandth {k : Int} (hk : k.natAbs < 1000 * 2 ^ 43) :
    ((ofInt k).div (ofInt 1000)).key =
      some (if k < 0 then -(thousandthUnits k.natAbs : Int) else thousandthUnits k.natAbs) := by
  obtain ⟨x, hx, hneg, hmagnitude⟩ := ofInt_eq_finite (n := k) (by omega)
  obtain ⟨y, hy, hneg', hmagnitude'⟩ := ofInt_eq_finite (n := 1000) (by decide)
  have hthousand : y.magnitude = 1000 * one := by rw [hmagnitude', show (1000 : Int).natAbs = 1000 from rfl]
  have hne : y.magnitude ≠ 0 := hthousand ▸ Nat.ne_of_gt pos_thousand
  have hsign : (x.neg ^^ y.neg) = decide (k < 0) := by rw [hneg, hneg']; simp
  rw [hx, hy, div, if_neg hne, key_ofUnits, hsign, hmagnitude, hthousand, thousandthUnits]
  simp only [decide_eq_true_eq]

/-- **A rounded thousandth stands to a rounded integer as the exact numbers stand.** -/
theorem compare_thousandth {k : Int} (hk : k.natAbs < 1000 * 2 ^ 43) (m : Int) :
    ((ofInt k).div (ofInt 1000)).compare (ofInt m) = some (Ord.compare k (1000 * m)) := by
  rw [compare_of_key (key_thousandth hk) (key_ofInt m), intUnits]
  have hpos (hk0 : k ≠ 0) : 0 < thousandthUnits k.natAbs := thousandthUnits_pos (by omega) hk
  have hpos' (hm0 : m ≠ 0) : 0 < nearestUnits (m.natAbs * one) 1 := nearestUnits_pos (by omega)
  have hup (h : 1000 * m.natAbs < k.natAbs) := nearestUnits_lt_thousandth h hk
  have hdown (h : k.natAbs < 1000 * m.natAbs) := thousandth_lt_nearestUnits h hk
  rcases Int.lt_trichotomy k (1000 * m) with hlt | heq | hgt
  · rw [Int.compare_eq_lt.2 hlt, Int.compare_eq_lt.2]
    split <;> split <;> omega
  · have hunits := thousandthUnits_mul m.natAbs
    rw [show 1000 * m.natAbs = k.natAbs by omega] at hunits
    rw [hunits, Int.compare_eq_eq.2 heq, Int.compare_eq_eq.2]
    simp only [show k < 0 ↔ m < 0 by omega]
  · rw [Int.compare_eq_gt.2 hgt, Int.compare_eq_gt.2]
    split <;> split <;> omega

/-! ## Integers of any size -/

/-- an integer of more than 64 digits keeps its 64 leading digits -/
theorem two_pow_le_narrowed {n : Nat} (hn : 2 ^ 64 ≤ n) : 2 ^ 63 ≤ narrowed n := by
  have hne : n ≠ 0 := by omega
  have hlog : 64 ≤ n.log2 := (Nat.le_log2 hne).2 hn
  obtain ⟨cut, hcut⟩ : ∃ cut, n.log2 = 63 + cut := ⟨n.log2 - 63, by omega⟩
  have hkept : 2 ^ 63 ≤ n / 2 ^ cut := by
    rw [Nat.le_div_iff_mul_le (Nat.two_pow_pos cut), ← Nat.pow_add, ← hcut]
    exact Nat.log2_self_le hne
  rw [narrowed, hcut, Nat.add_sub_cancel_left]
  calc 2 ^ 63 ≤ n / 2 ^ cut := hkept
    _ ≤ if leavesTrace n then n / 2 ^ cut ||| 1 else n / 2 ^ cut := by
      split
      · exact Nat.left_le_or
      · exact Nat.le_refl _
    _ ≤ _ := Nat.le_mul_of_pos_right _ (Nat.two_pow_pos cut)

/-- the rounding of larger integers makes no difference to a thousandth, which is far below them -/
theorem compare_thousandth_ofWide {k : Int} (hk : k.natAbs < 1000 * 2 ^ 43) {m : Int} (hm : 0 ≤ m) :
    ((ofInt k).div (ofInt 1000)).compare (ofWide m) = some (Ord.compare k (1000 * m)) := by
  by_cases hsmall : m.natAbs < 2 ^ 64
  · rw [ofWide_eq_ofInt m hsmall, compare_thousandth hk]
  · have hlarge := two_pow_le_narrowed (Nat.le_of_not_lt hsmall)
    have hwide : ofWide m = ofInt (narrowed m.natAbs) := by
      rw [ofWide, ofInt, Int.natAbs_natCast, decide_eq_false (Int.not_lt.2 hm), decide_eq_false (by omega)]
    rw [hwide, compare_thousandth hk, Int.compare_eq_lt.2 (by omega), Int.compare_eq_lt.2 (by omega)]

end Proviso.Double
