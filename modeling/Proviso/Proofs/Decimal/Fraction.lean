/-
Decimal fractions as amounts are written.

A decimal fraction is an optional minus sign, digits, and optionally a dot and more digits. Where a double is asked for, just
the texts of this form are read, each as the double nearest to what it denotes (`plain?_eq_some_iff`). Where a literal is
asked for, they are read as the same doubles (`double?_text`). That double is finite exactly when the digits denote less than
2^1024 - 2^970 (`Fraction.exists_double_iff`).
-/
import Mathlib.Data.List.TakeWhile
import Proviso.Proofs.Double.Range

namespace Proviso.Decimal

/-- a decimal fraction as it is written: its sign, and its digits before and after the dot -/
structure Fraction where
  neg : Bool
  whole : List Char
  places : List Char
  nonempty : whole ≠ []
  digits : ∀ c ∈ whole ++ places, c.isDigit = true

namespace Fraction

/-- the dot and the digits after it; without digits there is no dot -/
def tail (f : Fraction) : List Char := if f.places = [] then [] else '.' :: f.places

/-- the written form -/
def text (f : Fraction) : List Char := if f.neg then '-' :: (f.whole ++ f.tail) else f.whole ++ f.tail

/-- the double nearest to what the digits denote -/
def double (f : Fraction) : Double := toDouble f.neg f.whole f.places 0

/-- what the digits denote is below 2^1024 - 2^970 -/
def InRange (f : Fraction) : Prop :=
  ofDigits (f.whole ++ f.places) * Double.one < Double.overflowUnits * 10 ^ f.places.length

theorem exists_double_iff (f : Fraction) : (∃ x, f.double = .finite x) ↔ f.InRange := by
  rw [double, toDouble, Int.zero_sub]
  exact Double.exists_ofDecimal_iff _ _ _

theorem isDigit_whole (f : Fraction) : ∀ c ∈ f.whole, c.isDigit = true :=
  fun c hc => f.digits c (List.mem_append_left _ hc)

theorem isDigit_places (f : Fraction) : ∀ c ∈ f.places, c.isDigit = true :=
  fun c hc => f.digits c (List.mem_append_right _ hc)

/-- the written form starts with a digit, but for the sign -/
theorem exists_digit_cons (f : Fraction) : ∃ c cs, f.whole ++ f.tail = c :: cs ∧ c.isDigit = true := by
  obtain ⟨c, cs, hcs⟩ := List.exists_cons_of_ne_nil f.nonempty
  exact ⟨c, cs ++ f.tail, by rw [hcs, List.cons_append], f.isDigit_whole c (by simp [hcs])⟩

/-- the dot ends the digits before it -/
theorem takeWhile_whole_tail (f : Fraction) : (f.whole ++ f.tail).takeWhile Char.isDigit = f.whole := by
  rw [List.takeWhile_append_of_pos f.isDigit_whole, Fraction.tail]
  split <;> simp

theorem dropWhile_whole_tail (f : Fraction) : (f.whole ++ f.tail).dropWhile Char.isDigit = f.tail := by
  rw [List.dropWhile_append_of_pos f.isDigit_whole, Fraction.tail]
  split <;> simp

end Fraction

/-- what is read after the sign -/
def unsigned? (neg : Bool) (cs : List Char) : Option Double :=
  if (cs.takeWhile Char.isDigit).isEmpty then none
  else match cs.dropWhile Char.isDigit with
    | [] => some (toDouble neg (cs.takeWhile Char.isDigit) [] 0)
    | '.' :: places => if allDigits places then some (toDouble neg (cs.takeWhile Char.isDigit) places 0) else none
    | _ => none

theorem plain?_negative (cs : List Char) : plain? ('-' :: cs) = unsigned? true cs := rfl

theorem plain?_unsigned {cs : List Char} (h : cs.head? ≠ some '-') : plain? cs = unsigned? false cs := by
  unfold plain?
  split
  next neg cs' heq =>
    split at heq
    · exact absurd rfl h
    · obtain ⟨rfl, rfl⟩ := Prod.mk.inj heq
      rfl

/-- a fraction is read as it is written -/
theorem unsigned?_whole_tail (f : Fraction) : unsigned? f.neg (f.whole ++ f.tail) = some f.double := by
  rw [unsigned?, f.takeWhile_whole_tail, f.dropWhile_whole_tail, if_neg (by simpa using f.nonempty), Fraction.double,
    Fraction.tail]
  by_cases hnone : f.places = []
  · rw [if_pos hnone, hnone]
  · have hall : allDigits f.places = true := by
      rw [allDigits, List.all_eq_true.2 f.isDigit_places, Bool.and_true, Bool.not_eq_true', List.isEmpty_eq_false_iff]
      exact hnone
    rw [if_neg hnone]
    exact if_pos hall

/-- what is read is a fraction as it is written -/
theorem exists_fraction_of_unsigned? {neg : Bool} {cs : List Char} {x : Double} (h : unsigned? neg cs = some x) :
    ∃ f : Fraction, f.neg = neg ∧ f.whole ++ f.tail = cs ∧ f.double = x := by
  have hsplit := List.takeWhile_append_dropWhile (p := Char.isDigit) (l := cs)
  have hwhole : ∀ c ∈ cs.takeWhile Char.isDigit, c.isDigit = true := fun c hc => List.mem_takeWhile_imp hc
  unfold unsigned? at h
  split at h
  · cases h
  next hne =>
    have hnonempty : cs.takeWhile Char.isDigit ≠ [] := by simpa using hne
    split at h
    next hrest =>
      rw [hrest, List.append_nil] at hsplit
      exact ⟨⟨neg, _, [], hnonempty, by simpa using hwhole⟩, rfl, by simpa [Fraction.tail] using hsplit, Option.some.inj h⟩
    next places hrest =>
      split at h
      next hall =>
        obtain ⟨hsome, hplaces⟩ := Bool.and_eq_true_iff.1 hall
        have hplaces := List.all_eq_true.1 hplaces
        refine ⟨⟨neg, _, places, hnonempty, ?_⟩, rfl, ?_, Option.some.inj h⟩
        · intro c hc
          exact (List.mem_append.1 hc).elim (hwhole c) (hplaces c)
        · rw [Fraction.tail, if_neg (by simpa using hsome), ← hrest, hsplit]
      next => cases h
    next => cases h

/-- **Just the decimal fractions are read as doubles,** each as the double nearest to what it denotes. -/
theorem plain?_eq_some_iff {cs : List Char} {x : Double} :
    plain? cs = some x ↔ ∃ f : Fraction, f.text = cs ∧ f.double = x := by
  constructor
  · intro h
    by_cases hminus : cs.head? = some '-'
    · obtain ⟨ds, rfl⟩ := List.head?_eq_some_iff.1 hminus
      rw [plain?_negative] at h
      obtain ⟨f, hneg, hcs, hx⟩ := exists_fraction_of_unsigned? h
      exact ⟨f, by rw [Fraction.text, if_pos hneg, hcs], hx⟩
    · rw [plain?_unsigned hminus] at h
      obtain ⟨f, hneg, hcs, hx⟩ := exists_fraction_of_unsigned? h
      exact ⟨f, by rw [Fraction.text, hneg, if_neg (by decide), hcs], hx⟩
  · rintro ⟨f, rfl, rfl⟩
    have hread := unsigned?_whole_tail f
    unfold Fraction.text
    split
    · next hneg =>
      rw [plain?_negative, ← hread, hneg]
    · next hneg =>
      obtain ⟨c, cs, hcs, hc⟩ := f.exists_digit_cons
      have hdigit : (f.whole ++ f.tail).head? ≠ some '-' := by
        rw [hcs, List.head?_cons]
        exact fun heq => ne_of_isDigit hc rfl (Option.some.inj heq)
      rw [plain?_unsigned hdigit, ← hread, Bool.eq_false_iff.2 hneg]

/-- the sign and what follows it -/
theorem sign_text (f : Fraction) : sign f.text = (f.neg, f.whole ++ f.tail) := by
  unfold Fraction.text
  split
  · next hneg => rw [hneg, sign]
  · next hneg =>
    obtain ⟨c, cs, hcs, hc⟩ := f.exists_digit_cons
    rw [hcs, sign_of_isDigit hc, Bool.eq_false_iff.2 hneg]

/-- **Where literals are read, a decimal fraction is the same double.** -/
theorem double?_text (f : Fraction) : double? f.text = some f.double := by
  have hwhole : f.whole.isEmpty = false := List.isEmpty_eq_false_iff.2 f.nonempty
  have hplaces : f.places.takeWhile Char.isDigit = f.places ∧ f.places.dropWhile Char.isDigit = [] := by
    have hall := f.isDigit_places
    exact ⟨List.takeWhile_eq_self_iff.2 hall, List.dropWhile_eq_nil_iff.2 hall⟩
  rw [double?, sign_text]
  simp only [f.takeWhile_whole_tail, f.dropWhile_whole_tail, hwhole]
  unfold Fraction.tail
  by_cases hnone : f.places = []
  · simp [hnone, exponent?, Fraction.double]
  · simp [hnone, hplaces, exponent?, Fraction.double]

end Proviso.Decimal
