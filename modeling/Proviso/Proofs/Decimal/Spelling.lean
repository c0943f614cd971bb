/-
Which texts spell an integer canonically, and which near misses do not.

Canonical spellings are the integer literals of the pattern `0|-?[1-9][0-9]*` (`Pattern`,
`canonical?_eq_some_iff_literal`): the pattern decides what is accepted, and the literal what it denotes. So nothing of
another form gets through, however close it comes (`Misspelt`): leading zeros, a plus sign, a negative zero, a blank or
a line break anywhere, digits of another script, or no digit at all. What is left is one spelling for each integer, its
decimal text (`one_spelling_each`). Where a double is asked for, it is read as the one nearest to the integer
(`plain?_of_canonical?`).
-/
import Mathlib.Data.List.TakeWhile
import Proviso.Text.Blank
import Proviso.Proofs.Decimal.Canonical

namespace Proviso.Decimal

variable {cs : List Char} {n : Int}

/-! ## The pattern -/

/-- zero, or digits of which the first is not zero, with an optional minus sign before them -/
inductive Pattern : List Char → Prop
  | zero : Pattern ['0']
  | positive {c : Char} {ds : List Char} (nonzero : c ≠ '0') (digits : ∀ d ∈ c :: ds, d.isDigit = true) :
    Pattern (c :: ds)
  | negative {c : Char} {ds : List Char} (nonzero : c ≠ '0') (digits : ∀ d ∈ c :: ds, d.isDigit = true) :
    Pattern ('-' :: c :: ds)

theorem positive?_eq_some {k : Nat} :
    positive? cs = some k ↔
      ∃ c ds, cs = c :: ds ∧ c ≠ '0' ∧ (∀ d ∈ c :: ds, d.isDigit = true) ∧ ofDigits (c :: ds) = k := by
  cases cs with
  | nil => simp [positive?]
  | cons c ds => simp [positive?, and_assoc]

theorem pattern_of_canonical? (h : canonical? cs = some n) : Pattern cs := by
  unfold canonical? at h
  split at h
  · exact .zero
  · next cs =>
    cases hk : positive? cs with
    | none => simp [hk] at h
    | some k =>
      obtain ⟨c, ds, rfl, nonzero, digits, -⟩ := positive?_eq_some.1 hk
      exact .negative nonzero digits
  · cases hk : positive? cs with
    | none => simp [hk] at h
    | some k =>
      obtain ⟨c, ds, rfl, nonzero, digits, -⟩ := positive?_eq_some.1 hk
      exact .positive nonzero digits

/-- without underscores the two readers of digits agree -/
theorem separated?_eq_positive? {c : Char} {ds : List Char} (nonzero : c ≠ '0')
    (digits : ∀ d ∈ c :: ds, d.isDigit = true) : separated? (c :: ds) = positive? (c :: ds) := by
  rw [separated?_of_digits digits, positive?, if_pos ⟨nonzero, List.all_eq_true.2 digits⟩]

/-- a text of the pattern denotes what it denotes as a literal -/
theorem Pattern.canonical?_eq (h : Pattern cs) : canonical? cs = integer? cs := by
  cases h with
  | zero => rfl
  | @positive c ds nonzero digits =>
    have hdigit := digits c List.mem_cons_self
    have hminus : c ≠ '-' := ne_of_isDigit hdigit rfl
    have hcanonical : canonical? (c :: ds) = (positive? (c :: ds)).map fun n => (n : Int) := by
      unfold canonical?
      split <;> simp_all
    rw [hcanonical, integer?_of_isDigit hdigit, separated?_eq_positive? nonzero digits]
  | negative nonzero digits => rw [canonical?, integer?, separated?_eq_positive? nonzero digits]

/-- **A canonical spelling is an integer literal of the pattern.** -/
theorem canonical?_eq_some_iff_literal : canonical? cs = some n ↔ Pattern cs ∧ integer? cs = some n := by
  constructor
  · intro h
    have hpattern := pattern_of_canonical? h
    exact ⟨hpattern, hpattern.canonical?_eq ▸ h⟩
  · rintro ⟨hpattern, h⟩
    exact hpattern.canonical?_eq.symm ▸ h

/-! ## As doubles -/

theorem ofInt_zero : Double.ofInt 0 = .zero false := by
  rw [Double.ofInt, Int.natAbs_zero, Nat.zero_mul]
  rfl

theorem toDouble_digits (neg : Bool) {ds : List Char} (hpos : 0 < ofDigits ds) :
    toDouble neg ds [] 0 = .ofUnits neg (ofDigits ds * Double.one) 1 := by
  have hlow : ¬ ((0 : Int) + (Nat.log2 (ofDigits ds) + 1 : Nat) < -330) := by omega
  unfold toDouble Double.ofDecimal
  rw [List.append_nil, List.length_nil, Int.natCast_zero, Int.sub_zero, if_neg (Nat.ne_of_gt hpos), if_neg (by decide),
    if_neg hlow]
  change Double.ofUnits neg (ofDigits ds * 1 * Double.one) 1 = _
  rw [Nat.mul_one]

/-- digits with a minus sign or without one are the double nearest to their integer -/
theorem plain?_digits {ds : List Char} (hds : ∀ d ∈ ds, d.isDigit = true) (hpos : 0 < ofDigits ds) :
    plain? ds = some (.ofUnits false (ofDigits ds * Double.one) 1) ∧
      plain? ('-' :: ds) = some (.ofUnits true (ofDigits ds * Double.one) 1) := by
  have hsome : ds.isEmpty = false := List.isEmpty_eq_false_iff.2 (by rintro rfl; exact absurd hpos (by decide))
  have htake : ds.takeWhile Char.isDigit = ds := List.takeWhile_eq_self_iff.2 hds
  have hdrop : ds.dropWhile Char.isDigit = [] := List.dropWhile_eq_nil_iff.2 hds
  constructor
  · unfold plain?
    split
    next heq =>
      split at heq
      · exact absurd (hds '-' List.mem_cons_self) (by decide)
      · obtain ⟨rfl, rfl⟩ := Prod.mk.inj heq
        simp only [htake, hdrop, hsome, toDouble_digits false hpos, Bool.false_eq_true, if_false]
  · simp only [plain?, htake, hdrop, hsome, toDouble_digits true hpos, Bool.false_eq_true, if_false]

/-- an integer in canonical spelling is read as the double nearest to it -/
theorem plain?_of_canonical? (h : canonical? cs = some n) : plain? cs = some (.ofInt n) := by
  unfold canonical? at h
  split at h
  · obtain rfl := Option.some.inj h
    rw [ofInt_zero]
    rfl
  · next cs =>
    cases hk : positive? cs with
    | none => simp [hk] at h
    | some k =>
      obtain ⟨-, hpos⟩ := eq_toDigits_of_positive? hk
      obtain ⟨c, ds, rfl, -, digits, rfl⟩ := positive?_eq_some.1 hk
      obtain rfl : -(ofDigits (c :: ds) : Int) = n := by simpa [hk] using h
      rw [Double.ofInt, decide_eq_true (by omega), Int.natAbs_neg, Int.natAbs_natCast]
      exact (plain?_digits digits hpos).2
  · cases hk : positive? cs with
    | none => simp [hk] at h
    | some k =>
      obtain ⟨-, hpos⟩ := eq_toDigits_of_positive? hk
      obtain ⟨c, ds, rfl, -, digits, rfl⟩ := positive?_eq_some.1 hk
      obtain rfl : (ofDigits (c :: ds) : Int) = n := by simpa [hk] using h
      rw [Double.ofInt, decide_eq_false (by omega), Int.natAbs_natCast]
      exact (plain?_digits digits hpos).1

/-! ## Near misses -/

/-- texts that come close to an integer -/
inductive Misspelt : List Char → Prop
  | empty : Misspelt []
  | leadingZero (c : Char) (cs : List Char) : Misspelt ('0' :: c :: cs)
  | negativeZero (cs : List Char) : Misspelt ('-' :: '0' :: cs)
  | plus (cs : List Char) : Misspelt ('+' :: cs)
  | blank {c : Char} {cs : List Char} (blank : Text.isBlank c = true) (mem : c ∈ cs) : Misspelt cs
  | otherScript {c : Char} {cs : List Char} (foreign : 128 ≤ c.toNat) (mem : c ∈ cs) : Misspelt cs

/-- texts of the pattern consist of ASCII digits and minus signs -/
theorem Pattern.toNat_mem (h : Pattern cs) {c : Char} (hc : c ∈ cs) : 48 ≤ c.toNat ∧ c.toNat ≤ 57 ∨ c.toNat = 45 := by
  have hdigits : ∀ ds : List Char, (∀ d ∈ ds, d.isDigit = true) → c ∈ ds → 48 ≤ c.toNat ∧ c.toNat ≤ 57 :=
    fun ds hds hmem => Char.isDigit_iff_toNat.1 (hds c hmem)
  cases h with
  | zero => exact .inl (hdigits ['0'] (List.forall_mem_singleton.2 rfl) hc)
  | positive _ digits => exact .inl (hdigits _ digits hc)
  | negative _ digits =>
    rcases List.mem_cons.1 hc with rfl | hrest
    · exact .inr rfl
    · exact .inl (hdigits _ digits hrest)

theorem Misspelt.not_pattern (h : Misspelt cs) : ¬ Pattern cs := by
  intro hpattern
  cases h with
  | empty => cases hpattern
  | leadingZero c cs =>
    cases hpattern with
    | positive nonzero _ => exact nonzero rfl
  | negativeZero cs =>
    cases hpattern with
    | positive _ digits => exact absurd (digits '-' List.mem_cons_self) (by decide)
    | negative nonzero _ => exact nonzero rfl
  | plus cs =>
    cases hpattern with
    | positive _ digits => exact absurd (digits '+' List.mem_cons_self) (by decide)
  | blank blank mem =>
    have hc := hpattern.toNat_mem mem
    simp only [Text.isBlank, Bool.or_eq_true, Bool.and_eq_true, decide_eq_true_eq, beq_iff_eq] at blank
    omega
  | otherScript foreign mem =>
    have hc := hpattern.toNat_mem mem
    omega

/-- **Every integer has one canonical spelling, its decimal text.** A text is read as an integer exactly when it is the
decimal text of that integer; two texts that are read are the same exactly when their integers are; and a text with a
leading zero, a plus sign, a negative zero, a blank or a digit of another script is not read, nor is the empty one. -/
theorem one_spelling_each :
    (∀ (s : String) (n : Int), canonical? s.toList = some n ↔ s = toString n) ∧
      (∀ (s t : String) (m n : Int), canonical? s.toList = some m → canonical? t.toList = some n → (s = t ↔ m = n)) ∧
      (∀ s : String, Misspelt s.toList → canonical? s.toList = none) := by
  refine ⟨fun s n => ⟨fun h => ?_, ?_⟩, fun s t m n hs ht => ⟨?_, ?_⟩, fun s hmisspelt => ?_⟩
  · exact String.toList_injective (eq_toString_of_canonical? h)
  · rintro rfl
    exact canonical?_toString n
  · rintro rfl
    exact Option.some.inj (hs.symm.trans ht)
  · rintro rfl
    exact canonical?_inj hs ht
  · cases h : canonical? s.toList with
    | none => rfl
    | some n => exact absurd (pattern_of_canonical? h) hmisspelt.not_pattern

/-- two integers of thirty digits have different texts, each of them is read, and a line break after one spoils it, as
does a digit of another script -/
theorem long_texts_told_apart :
    canonical? "-100000000000000000000000000007".toList = some (-100000000000000000000000000007) ∧
      ("-100000000000000000000000000007" = "-100000000000000000000000000008" ↔
        (-100000000000000000000000000007 : Int) = -100000000000000000000000000008) ∧
      canonical? "-100000000000000000000000000007\n".toList = none ∧ canonical? "1\u0667".toList = none := by
  obtain ⟨hread, hsame, hmisspelt⟩ := one_spelling_each
  have hfirst := (hread "-100000000000000000000000000007" (-100000000000000000000000000007)).2 (by decide +kernel)
  have hsecond := (hread "-100000000000000000000000000008" (-100000000000000000000000000008)).2 (by decide +kernel)
  exact ⟨hfirst, hsame _ _ _ _ hfirst hsecond, hmisspelt _ (.blank (c := '\n') (by decide) (by decide)),
    hmisspelt _ (.otherScript (c := '\u0667') (by decide) (by decide))⟩

end Proviso.Decimal
