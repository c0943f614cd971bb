/-
Digits and the number that they denote.

The numerals of a natural number are its decimal digits after any number of zeros. Every run of digits is a numeral of one
number, the one that it is read as (`numeral_iff`), and the readers of integer literals and of positions read it so
(`Numeral.integer?_eq`, `Numeral.index?_eq`), whatever its length.
-/
import Proviso.Proofs.Decimal.Canonical

namespace Proviso.Decimal

/-- the digits denote `m`: they are those of its decimal text, after any number of zeros -/
def Numeral (m : Nat) (ds : List Char) : Prop := ∃ zeros, ds = List.replicate zeros '0' ++ (toString m).toList

theorem numeral_toString (m : Nat) : Numeral m (toString m).toList := ⟨0, rfl⟩

theorem toList_toString_nat (m : Nat) : (toString m).toList = Nat.toDigits 10 m := Nat.toList_repr

variable {m : Nat} {ds : List Char}

theorem Numeral.isDigit (h : Numeral m ds) : ∀ c ∈ ds, c.isDigit = true := by
  obtain ⟨zeros, rfl⟩ := h
  intro c hc
  rw [toList_toString_nat] at hc
  rcases List.mem_append.1 hc with hzero | hdigit
  · rw [(List.mem_replicate.1 hzero).2]
    rfl
  · exact Nat.isDigit_of_mem_toDigits (by decide) (by decide) hdigit

theorem Numeral.exists_cons (h : Numeral m ds) : ∃ c cs, ds = c :: cs := by
  apply List.exists_cons_of_ne_nil
  obtain ⟨zeros, rfl⟩ := h
  intro hnil
  have hdigits := (List.append_eq_nil_iff.1 hnil).2
  rw [toList_toString_nat] at hdigits
  exact Nat.toDigits_ne_nil hdigits

theorem Numeral.ofDigits_eq (h : Numeral m ds) : ofDigits ds = m := by
  obtain ⟨zeros, rfl⟩ := h
  have hvalue : Nat.ofDigitChars 10 (List.replicate zeros '0' ++ Nat.toDigits 10 m) 0 = m := by
    rw [Nat.ofDigitChars_append, Nat.ofDigitChars_replicate_zero, Nat.mul_zero,
      Nat.ofDigitChars_toDigits (by decide) (by decide)]
  rw [toList_toString_nat]
  exact hvalue

theorem numeral_ofDigits (hne : ds ≠ []) (hds : ∀ c ∈ ds, c.isDigit = true) : Numeral (ofDigits ds) ds := by
  induction ds with
  | nil => exact absurd rfl hne
  | cons c cs ih =>
    by_cases hc : c = '0'
    · subst hc
      cases cs with
      | nil => exact numeral_toString 0
      | cons d cs =>
        -- a zero in front adds nothing
        obtain ⟨zeros, hzeros⟩ := ih (by simp) fun x hx => hds x (List.mem_cons_of_mem _ hx)
        have hvalue : ofDigits ('0' :: d :: cs) = ofDigits (d :: cs) := rfl
        refine ⟨zeros + 1, ?_⟩
        rw [hvalue, List.replicate_succ, List.cons_append, ← hzeros]
    · refine ⟨0, ?_⟩
      rw [toList_toString_nat, toDigits_ofDigits hc hds]
      rfl

/-- **Every run of digits is a numeral of the number it is read as,** and of no other. -/
theorem numeral_iff : Numeral m ds ↔ ds ≠ [] ∧ (∀ c ∈ ds, c.isDigit = true) ∧ ofDigits ds = m := by
  constructor
  · intro h
    obtain ⟨c, cs, rfl⟩ := h.exists_cons
    exact ⟨by simp, h.isDigit, h.ofDigits_eq⟩
  · rintro ⟨hne, hds, rfl⟩
    exact numeral_ofDigits hne hds

/-- without a sign or underscores an integer literal is what its digits denote -/
theorem Numeral.integer?_eq (h : Numeral m ds) : integer? ds = some (m : Int) := by
  have hdigits := h.isDigit
  have hvalue := h.ofDigits_eq
  obtain ⟨c, cs, rfl⟩ := h.exists_cons
  rw [integer?_of_isDigit (hdigits c List.mem_cons_self), separated?_of_digits hdigits, hvalue]
  rfl

/-- a position that 64 bits hold is read from any of its numerals -/
theorem Numeral.index?_eq (h : Numeral m ds) (hm : m < 2 ^ 64) : index? ds = some (UInt64.ofNat m) := by
  have hdigits := h.isDigit
  have hvalue := h.ofDigits_eq
  obtain ⟨c, cs, rfl⟩ := h.exists_cons
  have hdrop := dropPlus_of_isDigit (hdigits c List.mem_cons_self) cs
  have hall : allDigits (c :: cs) = true := by
    rw [allDigits, List.all_eq_true.2 hdigits]
    rfl
  simp only [index?, hdrop, hall, hvalue, hm, and_self, if_true]

end Proviso.Decimal
