/-
The order of instants is that of their places on a line.

Day, second and nanoseconds are looked at one after the other, so they can be counted through, with room in each second for
the nanoseconds of a leap second. What is known of the order of integers then holds of instants, in particular of the
earlier and the later of two.
-/
import Mathlib.Algebra.Order.Group.Int
import Proviso.Instant

namespace Proviso.Instant

variable {a b : Instant} {x y : Int} {i j k : Nat}

/-! ## Numbers of two digits -/

theorem digits_lt (hi : i < k) (h : x < y) (j : Nat) : x * k + i < y * k + j := by
  have hcarry : (x + 1) * k ≤ y * k := Int.mul_le_mul_of_nonneg_right h (Int.natCast_nonneg k)
  rw [Int.add_mul, Int.one_mul] at hcarry
  omega

/-- numbers of two digits are compared by the first, and by the second where the first are equal -/
theorem compare_digits (hi : i < k) (hj : j < k) :
    Ord.compare (x * k + i) (y * k + j) = (Ord.compare x y).then (Ord.compare i j) := by
  rcases Int.lt_trichotomy x y with h | rfl | h
  · rw [Int.compare_eq_lt.2 h, Int.compare_eq_lt.2 (digits_lt hi h j), Ordering.lt_then]
  · rw [Int.compare_eq_eq.2 rfl, Ordering.eq_then]
    rcases Nat.lt_trichotomy i j with h | rfl | h
    · rw [Nat.compare_eq_lt.2 h, Int.compare_eq_lt]
      omega
    · rw [Nat.compare_eq_eq.2 rfl, Int.compare_eq_eq]
    · rw [Nat.compare_eq_gt.2 h, Int.compare_eq_gt]
      omega
  · rw [Int.compare_eq_gt.2 h, Int.compare_eq_gt.2 (digits_lt hj h i), Ordering.gt_then]

/-! ## Places -/

/-- the place of an instant on a line: its seconds, and its nanoseconds among those of a leap second -/
def place (a : Instant) : Int := (a.day * (86400 : Nat) + a.second.val) * (2000000000 : Nat) + a.nano.val

theorem place_inj (h : a.place = b.place) : a = b := by
  obtain ⟨day, second, nano⟩ := a
  obtain ⟨day', second', nano'⟩ := b
  simp only [place] at h
  have hday : day = day' := by omega
  have hsecond : second = second' := Fin.ext (by omega)
  have hnano : nano = nano' := Fin.ext (by omega)
  rw [hday, hsecond, hnano]

theorem compare_eq (a b : Instant) : a.compare b = Ord.compare a.place b.place := by
  rw [place, place, compare_digits a.nano.isLt b.nano.isLt, compare_digits a.second.isLt b.second.isLt, compare,
    Ordering.then_assoc]

theorem le_iff : a.le b = true ↔ a.place ≤ b.place := by
  rw [le, compare_eq, bne_iff_ne, ne_eq, Int.compare_eq_gt, Int.not_lt]

protected theorem le_refl (a : Instant) : a.le a = true := le_iff.2 (Int.le_refl _)

protected theorem le_trans {c : Instant} (hab : a.le b = true) (hbc : b.le c = true) : a.le c = true :=
  le_iff.2 (Int.le_trans (le_iff.1 hab) (le_iff.1 hbc))

protected theorem le_antisymm (hab : a.le b = true) (hba : b.le a = true) : a = b :=
  place_inj (Int.le_antisymm (le_iff.1 hab) (le_iff.1 hba))

theorem place_min (a b : Instant) : (a.min b).place = Min.min a.place b.place := by
  rw [min]
  split
  · next h => exact (min_eq_left (le_iff.1 h)).symm
  · next h => exact (min_eq_right (Int.le_of_not_le fun hle => h (le_iff.2 hle))).symm

theorem place_max (a b : Instant) : (a.max b).place = Max.max a.place b.place := by
  rw [max]
  split
  · next h => exact (max_eq_right (le_iff.1 h)).symm
  · next h => exact (max_eq_left (Int.le_of_not_le fun hle => h (le_iff.2 hle))).symm

theorem min_le (a b : Instant) : (a.min b).le a = true ∧ (a.min b).le b = true := by
  rw [le_iff, le_iff, place_min]
  exact ⟨min_le_left _ _, min_le_right _ _⟩

theorem le_max (a b : Instant) : a.le (a.max b) = true ∧ b.le (a.max b) = true := by
  rw [le_iff, le_iff, place_max]
  exact ⟨le_max_left _ _, le_max_right _ _⟩

end Proviso.Instant
