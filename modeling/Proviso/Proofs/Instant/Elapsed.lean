/-
Time that has passed, held against whole seconds.

Every instant that is read is within some hundred thousand years of the year 0, because the year of a date without a time of
day stands in ten bytes with the rest of it, and that of any other has four digits (`near_of_ofText?`). So there are few
enough milliseconds between two of them for doubles, and as doubles the seconds that have passed stand to a whole number of
seconds as the milliseconds stand to it (`compare_secondsSince`, `compare_secondsSince_ofWide`). What is finer than a
millisecond is lost before that: a time that is over a limit by less is within it (`millis_le_iff`).
-/
import Proviso.Proofs.Double.Thousandths
import Proviso.Proofs.Instant.BareDate

namespace Proviso.Instant

variable {s : String} {cs : List Char} {n most : Nat} {year : Int} {date : Date} {a b t : Instant}

/-! ## Instants that have been read -/

/-- within some hundred thousand years of the year 0 -/
structure Near (t : Instant) : Prop where
  lower : -40000000 ≤ t.day
  upper : t.day ≤ 40000000

theorem numeral_lt (h : Decimal.Numeral n cs) (short : cs.length ≤ most) : n < 10 ^ most := by
  rw [← h.ofDigits_eq]
  exact Nat.lt_of_lt_of_le (Decimal.ofDigits_lt h.isDigit) (Nat.pow_le_pow_right (by decide) short)

theorem Spaced.length_pos (h : Spaced most n cs) : 0 < cs.length := by
  obtain ⟨-, hnumeral, -⟩ := h
  rw [List.length_append]
  exact Nat.add_pos_right _ (length_numeral_pos hnumeral)

/-- a year of six characters has five digits at most, since six would take a sign -/
theorem SpacedYear.natAbs_lt (h : SpacedYear year cs) (short : cs.length ≤ 6) : year.natAbs < 10 ^ 5 := by
  cases h with
  | unsigned h =>
    obtain ⟨-, hnumeral, hfour⟩ := h
    have hlt := numeral_lt hnumeral hfour
    omega
  | @plus n _ _ _ hnumeral =>
    simp only [List.length_append, List.length_cons] at short
    have hlt : n < 10 ^ 5 := numeral_lt hnumeral (by omega)
    omega
  | @minus n _ _ _ hnumeral =>
    simp only [List.length_append, List.length_cons] at short
    have hlt : n < 10 ^ 5 := numeral_lt hnumeral (by omega)
    omega

theorem LooselyWritten.natAbs_year_lt (h : LooselyWritten date cs) (short : cs.length ≤ 10) :
    date.year.natAbs < 10 ^ 5 := by
  obtain ⟨hyear, hmonth, hday⟩ := h
  have hmonth := hmonth.length_pos
  have hday := hday.length_pos
  simp only [List.length_append, List.length_cons] at short
  exact hyear.natAbs_lt (by omega)

theorem near_midnight (hyear : date.year.natAbs < 10 ^ 5) (hdate : date.isValid = true) : (midnight date).Near := by
  obtain ⟨⟨hpos, hmonth⟩, hone, hday⟩ := Date.month_day_le hdate
  constructor <;>
  · simp only [midnight, Date.dayNumber]
    split <;> omega

theorem near_of_ofRfc3339? (h : ofRfc3339? cs = some t) : t.Near := by
  obtain ⟨date, hour, minute, second, nano, offset, hlocal, rfl⟩ := exists_ofLocal_of_ofRfc3339? h
  have hdays := Date.dayNumber_of_fourDigitYear hlocal.year hlocal.date
  have hday := hlocal.day_ofLocal
  exact ⟨by omega, by omega⟩

/-- **Instants that are read are near.** -/
theorem near_of_ofText? (h : ofText? s = some t) : t.Near := by
  cases hfull : ofRfc3339? s.toList with
  | some t' =>
    rw [ofText?, hfull] at h
    obtain rfl := Option.some.inj h
    exact near_of_ofRfc3339? hfull
  | none =>
    obtain ⟨hbytes, date, hdate, hvalid, rfl⟩ := (ofText?_eq_some_of_bare hfull).1 h
    exact near_midnight (hdate.natAbs_year_lt (hbytes ▸ length_le_utf8ByteSize s)) hvalid

/-! ## Milliseconds -/

/-- milliseconds from `b` to `a`, the rest cut off toward zero -/
def millisSince (a b : Instant) : Int := (a.since b).tdiv 1000000

theorem natAbs_since_lt (ha : a.Near) (hb : b.Near) : (a.since b).natAbs < 1000 * 2 ^ 43 * 1000000 := by
  obtain ⟨hlow, hhigh⟩ := ha
  obtain ⟨hlow', hhigh'⟩ := hb
  have hsecond := a.second.isLt
  have hsecond' := b.second.isLt
  have hnano := a.nano.isLt
  have hnano' := b.nano.isLt
  obtain ⟨leap, hleap, hbound⟩ : ∃ leap : Int, a.since b =
      ((a.day - b.day) * 86400 + ((a.second.val : Int) - b.second.val) + leap) * 1000000000
        + ((a.nano.val : Int) - b.nano.val) ∧ (-1 ≤ leap ∧ leap ≤ 1) := by
    refine ⟨_, rfl, ?_⟩
    split_ifs <;> decide
  omega

theorem natAbs_millisSince_lt (ha : a.Near) (hb : b.Near) : (a.millisSince b).natAbs < 1000 * 2 ^ 43 := by
  rw [millisSince, Int.natAbs_tdiv]
  exact Nat.div_lt_of_lt_mul (by simpa [Nat.mul_comm] using natAbs_since_lt ha hb)

/-- **Seconds that have passed stand to a whole number of seconds as the milliseconds do.** -/
theorem compare_secondsSince (ha : a.Near) (hb : b.Near) (m : Int) :
    (a.secondsSince b).compare (.ofInt m) = some (Ord.compare (a.millisSince b) (1000 * m)) :=
  Double.compare_thousandth (natAbs_millisSince_lt ha hb) m

theorem compare_secondsSince_ofWide (ha : a.Near) (hb : b.Near) {m : Int} (hm : 0 ≤ m) :
    (a.secondsSince b).compare (.ofWide m) = some (Ord.compare (a.millisSince b) (1000 * m)) :=
  Double.compare_thousandth_ofWide (natAbs_millisSince_lt ha hb) hm

/-! ## Limits in seconds -/

/-- so many nanoseconds are no more than so many seconds -/
def AtMost (seconds elapsed : Int) : Prop := elapsed ≤ seconds * 1000000000

/-- so many nanoseconds are more than so many seconds, by less than a millisecond; time before the start is never so -/
def JustOver (seconds elapsed : Int) : Prop :=
  0 ≤ seconds ∧ seconds * 1000000000 < elapsed ∧ elapsed < seconds * 1000000000 + 1000000

instance (seconds elapsed : Int) : Decidable (AtMost seconds elapsed) := inferInstanceAs (Decidable (_ ≤ _))

instance (seconds elapsed : Int) : Decidable (JustOver seconds elapsed) := inferInstanceAs (Decidable (_ ∧ _))

/-- **A limit in milliseconds is kept by what is at most the limit or just over it.** -/
theorem millis_le_iff {m : Int} :
    a.millisSince b ≤ 1000 * m ↔ AtMost m (a.since b) ∨ JustOver m (a.since b) := by
  have hsign : Int.sign 1000000 = 1 := rfl
  rw [millisSince, Int.tdiv_eq_ediv, hsign, AtMost, JustOver]
  split <;> omega

end Proviso.Instant
