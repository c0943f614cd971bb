/-
A canonical spelling is the decimal text of its integer.

Digits without a leading zero are the decimal digits of the number they denote (`toDigits_ofDigits`): read from the left,
each digit is appended to those of a positive number. So a text in canonical spelling is what its integer is printed as
(`eq_toString_of_canonical?`), what any integer is printed as is in canonical spelling (`canonical?_toString`), and
different texts denote different integers (`canonical?_inj`).
-/
import Proviso.Decimal

namespace Proviso.Decimal

theorem digit_lt {c : Char} (h : c.isDigit = true) : digit c < 10 := by
  have hn : 48 ≤ c.toNat ∧ c.toNat ≤ 57 := Char.isDigit_iff_toNat.1 h
  have h48 : '0'.toNat = 48 := rfl
  unfold digit
  omega

theorem digitChar_digit {c : Char} (h : c.isDigit = true) : (digit c).digitChar = c := by
  have hn : 48 ≤ c.toNat ∧ c.toNat ≤ 57 := Char.isDigit_iff_toNat.1 h
  have h48 : '0'.toNat = 48 := rfl
  apply Char.toNat_inj.1
  rw [Nat.toNat_digitChar_of_lt_ten (digit_lt h)]
  unfold digit
  omega

/-- digits after those of a positive number are the last digits of a larger one -/
theorem toDigits_foldl {cs : List Char} (hcs : ∀ c ∈ cs, c.isDigit = true) {n : Nat} (hn : 0 < n) :
    Nat.toDigits 10 (cs.foldl (fun n c => 10 * n + digit c) n) = Nat.toDigits 10 n ++ cs := by
  induction cs generalizing n with
  | nil => simp
  | cons c cs ih =>
    have hc := hcs c List.mem_cons_self
    have hstep := Nat.toDigits_append_toDigits (by decide : 1 < 10) hn (digit_lt hc)
    rw [Nat.toDigits_of_lt_base (digit_lt hc), digitChar_digit hc] at hstep
    have hrest : ∀ x ∈ cs, x.isDigit = true := fun x hx => hcs x (List.mem_cons_of_mem _ hx)
    rw [List.foldl_cons, ih hrest (by omega), ← hstep, List.append_assoc, List.singleton_append]

theorem toDigits_ofDigits {c : Char} {cs : List Char} (hc : c ≠ '0') (hcs : ∀ x ∈ c :: cs, x.isDigit = true) :
    Nat.toDigits 10 (ofDigits (c :: cs)) = c :: cs := by
  have hdigit := hcs c List.mem_cons_self
  have hpos : 0 < digit c := by
    rcases Nat.eq_zero_or_pos (digit c) with hzero | hpos
    · have := digitChar_digit hdigit
      rw [hzero] at this
      exact absurd this.symm hc
    · exact hpos
  have hrest : ∀ x ∈ cs, x.isDigit = true := fun x hx => hcs x (List.mem_cons_of_mem _ hx)
  have h := toDigits_foldl hrest hpos
  rw [Nat.toDigits_of_lt_base (digit_lt hdigit), digitChar_digit hdigit] at h
  simpa [ofDigits] using h

theorem eq_toDigits_of_positive? {cs : List Char} {n : Nat} (h : positive? cs = some n) :
    cs = Nat.toDigits 10 n ∧ 0 < n := by
  cases cs with
  | nil => simp [positive?] at h
  | cons c cs =>
    simp only [positive?] at h
    split at h
    · next hcs =>
      obtain ⟨hc, hall⟩ := hcs
      obtain rfl := Option.some.inj h
      have hdigits := toDigits_ofDigits hc (List.all_eq_true.1 hall)
      refine ⟨hdigits.symm, ?_⟩
      rcases Nat.eq_zero_or_pos (ofDigits (c :: cs)) with hzero | hpos
      · rw [hzero, Nat.toDigits_zero] at hdigits
        exact absurd (List.cons.inj hdigits).1.symm hc
      · exact hpos
    · simp at h

theorem toList_toString_natCast (n : Nat) : (toString (n : Int)).toList = Nat.toDigits 10 n := by
  have h : toString (n : Int) = Nat.repr n := rfl
  rw [h, Nat.repr_eq_ofList_toDigits, String.toList_ofList]

theorem toList_toString_neg {n : Nat} (hn : 0 < n) : (toString (-(n : Int))).toList = '-' :: Nat.toDigits 10 n := by
  obtain ⟨m, rfl⟩ : ∃ m, n = m + 1 := ⟨n - 1, by omega⟩
  have h : toString (-((m + 1 : Nat) : Int)) = "-" ++ Nat.repr (m + 1) := rfl
  rw [h, String.toList_append, Nat.repr_eq_ofList_toDigits, String.toList_ofList]
  simp

/-- **A canonical spelling is how its integer is printed.** -/
theorem eq_toString_of_canonical? {cs : List Char} {n : Int} (h : canonical? cs = some n) : cs = (toString n).toList := by
  unfold canonical? at h
  split at h
  · obtain rfl := Option.some.inj h
    rfl
  · next cs =>
    cases hk : positive? cs with
    | none => simp [hk] at h
    | some k =>
      obtain ⟨rfl, hpos⟩ := eq_toDigits_of_positive? hk
      obtain rfl : -(k : Int) = n := by simpa [hk] using h
      exact (toList_toString_neg hpos).symm
  · cases hk : positive? cs with
    | none => simp [hk] at h
    | some k =>
      obtain ⟨rfl, -⟩ := eq_toDigits_of_positive? hk
      obtain rfl : (k : Int) = n := by simpa [hk] using h
      exact (toList_toString_natCast k).symm

/-- the digits of a positive number start with one that is not zero -/
theorem toDigits_eq_cons {n : Nat} (hn : 0 < n) : ∃ c cs, Nat.toDigits 10 n = c :: cs ∧ c ≠ '0' := by
  induction n using Nat.strongRecOn with
  | ind n ih =>
    rcases Nat.lt_or_ge n 10 with hlt | hge
    · refine ⟨n.digitChar, [], Nat.toDigits_of_lt_base hlt, ?_⟩
      intro hzero
      have h := Nat.toNat_digitChar_of_lt_ten hlt
      have h48 : '0'.toNat = 48 := rfl
      rw [hzero] at h
      omega
    · obtain ⟨c, cs, hdigits, hc⟩ := ih (n / 10) (by omega) (by omega)
      refine ⟨c, cs ++ [(n % 10).digitChar], ?_, hc⟩
      rw [Nat.toDigits_of_base_le (by decide) hge, hdigits, List.cons_append]

theorem positive?_toDigits {n : Nat} (hn : 0 < n) : positive? (Nat.toDigits 10 n) = some n := by
  obtain ⟨c, cs, hdigits, hc⟩ := toDigits_eq_cons hn
  have hall : (c :: cs).all Char.isDigit = true := by
    rw [← hdigits, List.all_eq_true]
    intro x hx
    exact Nat.isDigit_of_mem_toDigits (by decide) (by decide) hx
  have hvalue : ofDigits (c :: cs) = n := by
    rw [← hdigits]
    exact Nat.ofDigitChars_toDigits (by decide) (by decide)
  rw [hdigits, positive?, if_pos ⟨hc, hall⟩, hvalue]

/-- **How an integer is printed is a canonical spelling of it.** -/
theorem canonical?_toString (n : Int) : canonical? (toString n).toList = some n := by
  rcases Int.lt_trichotomy n 0 with hneg | rfl | hpos
  · obtain ⟨k, rfl⟩ : ∃ k : Nat, n = -(k : Int) := ⟨n.natAbs, by omega⟩
    have hk : 0 < k := by omega
    rw [toList_toString_neg hk, canonical?, positive?_toDigits hk]
    rfl
  · rfl
  · obtain ⟨k, rfl⟩ : ∃ k : Nat, n = (k : Int) := ⟨n.natAbs, by omega⟩
    have hk : 0 < k := by omega
    have hpositive := positive?_toDigits hk
    obtain ⟨c, cs, hdigits, hc⟩ := toDigits_eq_cons hk
    have hminus : c ≠ '-' := by
      rintro rfl
      have hmem : '-' ∈ Nat.toDigits 10 k := by simp [hdigits]
      exact absurd (Nat.isDigit_of_mem_toDigits (by decide) (by decide) hmem) (by decide)
    rw [toList_toString_natCast]
    unfold canonical?
    split
    · next hzero => simp [hdigits, hc] at hzero
    · next hneg => simp [hdigits, hminus] at hneg
    · rw [hpositive]
      rfl

/-- **Canonical spellings are unique.** -/
theorem canonical?_inj {s t : String} {n : Int} (hs : canonical? s.toList = some n) (ht : canonical? t.toList = some n) :
    s = t := by
  apply String.toList_injective
  rw [eq_toString_of_canonical? hs, eq_toString_of_canonical? ht]

end Proviso.Decimal
