/-
What an instant is printed as, read again.

A number of fixed width is read back from its padded digits (`fixed?_padded`), and so is a date with a time of day, field
by field (`timeOn?_writtenTime`, `ofRfc3339?_written`). An instant whose year has four digits is therefore read back
without what is finer than a millisecond (`ofRfc3339?_text`), as long as it is in a leap second only at the end of a
minute. The year of any other instant is printed with a sign, and then the text is no timestamp (`ofText?_text_eq_none`).

What has been read is a local time (`LocalTime`, `exists_ofLocal_of_ofRfc3339?`): its leap seconds end minutes, and it is
no more than a day away from the years of four digits.
-/
import Mathlib.Data.String.Basic
import Proviso.Instant.Text
import Proviso.Proofs.Decimal.Numeral
import Proviso.Proofs.Instant.Calendar

namespace Proviso

/-! ## Numbers of fixed width -/

namespace Decimal

theorem foldl_digit_lt {cs : List Char} (h : ∀ c ∈ cs, c.isDigit = true) (n : Nat) :
    cs.foldl (fun n c => 10 * n + digit c) n < (n + 1) * 10 ^ cs.length := by
  induction cs generalizing n with
  | nil => simp
  | cons c cs ih =>
    have hdigit := digit_lt (h c List.mem_cons_self)
    have hrest := ih (fun x hx => h x (List.mem_cons_of_mem _ hx)) (10 * n + digit c)
    rw [List.foldl_cons, List.length_cons, Nat.pow_succ']
    calc cs.foldl (fun n c => 10 * n + digit c) (10 * n + digit c)
        < (10 * n + digit c + 1) * 10 ^ cs.length := hrest
      _ ≤ ((n + 1) * 10) * 10 ^ cs.length := Nat.mul_le_mul_right _ (by omega)
      _ = (n + 1) * (10 * 10 ^ cs.length) := Nat.mul_assoc _ _ _

theorem ofDigits_lt {cs : List Char} (h : ∀ c ∈ cs, c.isDigit = true) : ofDigits cs < 10 ^ cs.length := by
  have hlt := foldl_digit_lt h 0
  rwa [Nat.zero_add, Nat.one_mul] at hlt

end Decimal

namespace Instant

section Padded

variable {width n : Nat}

theorem toList_padded (width n : Nat) : (padded width n).toList =
    List.replicate (width - (Nat.toDigits 10 n).length) '0' ++ Nat.toDigits 10 n := by
  rw [padded, String.toList_append, String.toList_ofList, ← String.length_toList, Decimal.toList_toString_nat]

/-- zeros in front make another numeral of the same number -/
theorem numeral_padded (width n : Nat) : Decimal.Numeral n (padded width n).toList := by
  refine ⟨width - (Nat.toDigits 10 n).length, ?_⟩
  rw [toList_padded, Decimal.toList_toString_nat]

theorem isDigit_of_mem_padded {c : Char} (h : c ∈ (padded width n).toList) : c.isDigit = true :=
  (numeral_padded width n).isDigit c h

theorem ofDigits_padded : Decimal.ofDigits (padded width n).toList = n := (numeral_padded width n).ofDigits_eq

theorem le_length_padded (width n : Nat) : width ≤ (padded width n).toList.length := by
  rw [toList_padded, List.length_append, List.length_replicate]
  omega

theorem length_padded (hwidth : 0 < width) (h : n < 10 ^ width) : (padded width n).toList.length = width := by
  have hdigits := (Nat.length_toDigits_le_iff (by decide : 1 < 10) hwidth).2 h
  rw [toList_padded, List.length_append, List.length_replicate]
  omega

theorem fixed?_padded (hwidth : 0 < width) (h : n < 10 ^ width) (rest : List Char) :
    fixed? width ((padded width n).toList ++ rest) = some (n, rest) := by
  have hlength := length_padded hwidth h
  have hdigits : (padded width n).toList.all Char.isDigit = true :=
    List.all_eq_true.2 fun c hc => isDigit_of_mem_padded hc
  rw [fixed?, List.take_left' hlength, List.drop_left' hlength, if_pos ⟨hlength, hdigits⟩, ofDigits_padded]

theorem fixed?_of_not_digit {c : Char} (hc : c.isDigit = false) (cs : List Char) : fixed? (n + 1) (c :: cs) = none := by
  rw [fixed?, List.take_succ_cons, if_neg]
  rintro ⟨-, hdigits⟩
  rw [List.all_cons, hc, Bool.false_and] at hdigits
  exact absurd hdigits (by decide)

theorem fraction?_padded {milli : Nat} (h : milli < 1000) (rest : List Char) :
    fraction? ('.' :: ((padded 3 milli).toList ++ 'Z' :: rest)) = some (milli * 1000000, 'Z' :: rest) := by
  have hdigits : ∀ c ∈ (padded 3 milli).toList, c.isDigit = true := fun c hc => isDigit_of_mem_padded hc
  have hlength : (padded 3 milli).toList.length = 3 := length_padded (by decide) h
  have htake : ((padded 3 milli).toList ++ 'Z' :: rest).takeWhile Char.isDigit = (padded 3 milli).toList := by
    rw [List.takeWhile_append_of_pos hdigits, List.takeWhile_cons_of_neg (by decide), List.append_nil]
  have hdrop : ((padded 3 milli).toList ++ 'Z' :: rest).dropWhile Char.isDigit = 'Z' :: rest := by
    rw [List.dropWhile_append_of_pos hdigits, List.dropWhile_cons_of_neg (by decide)]
  have hsome : (padded 3 milli).toList.isEmpty = false := by
    rw [List.isEmpty_eq_false_iff, ← List.length_pos_iff, hlength]
    decide
  have hcounted : (padded 3 milli).toList.take 9 = (padded 3 milli).toList := List.take_of_length_le (by omega)
  simp only [fraction?, htake, hdrop, hsome, hcounted, hlength, ofDigits_padded, Bool.false_eq_true, if_false]

/-- a fraction of a second is less than a second -/
theorem fraction?_lt {cs rest : List Char} {nano : Nat} (h : fraction? cs = some (nano, rest)) : nano < 1000000000 := by
  unfold fraction? at h
  split at h
  · next ds =>
    simp only at h
    split at h
    · exact absurd h (by simp)
    · obtain ⟨counted, hcounted⟩ : ∃ counted, counted = (ds.takeWhile Char.isDigit).take 9 := ⟨_, rfl⟩
      have hdigits : ∀ c ∈ counted, c.isDigit = true := by
        intro c hc
        rw [hcounted] at hc
        exact List.all_eq_true.1 List.all_takeWhile c (List.mem_of_mem_take hc)
      have hlength : counted.length ≤ 9 := hcounted ▸ List.length_take_le 9 _
      rw [← hcounted, Option.some.injEq, Prod.mk.injEq] at h
      obtain ⟨rfl, -⟩ := h
      calc Decimal.ofDigits counted * 10 ^ (9 - counted.length)
          < 10 ^ counted.length * 10 ^ (9 - counted.length) :=
            Nat.mul_lt_mul_of_pos_right (Decimal.ofDigits_lt hdigits) (Nat.pow_pos (by decide))
        _ = 10 ^ 9 := by rw [← Nat.pow_add, Nat.add_sub_cancel' hlength]
  · obtain ⟨rfl, -⟩ : 0 = nano ∧ _ = rest := by simpa using h
    decide

end Padded

/-! ## Dates and times of day -/

/-- the second half of `ofRfc3339?`: the time of day on a date that has been read, with its offset -/
def timeOn? (date : Date) (cs : List Char) : Option Instant := do
  let (hour, cs) ← fixed? 2 cs
  let cs ← after? ':' cs
  let (minute, cs) ← fixed? 2 cs
  let cs ← after? ':' cs
  let (second, cs) ← fixed? 2 cs
  let (nano, cs) ← fraction? cs
  let (offset, cs) ← offset? cs
  if cs.isEmpty ∧ date.isValid ∧ hour < 24 ∧ minute < 60 ∧ second ≤ 60 then
    some (ofLocal date hour minute second nano offset)
  else none

theorem after?_cons (c : Char) (cs : List Char) : after? c (c :: cs) = some cs := if_pos rfl

/-- a time of day in universal time with milliseconds, as it is printed -/
def writtenTime (hour minute second milli : Nat) : List Char :=
  (padded 2 hour).toList ++ ':' :: ((padded 2 minute).toList ++ ':' :: ((padded 2 second).toList ++ '.' ::
    ((padded 3 milli).toList ++ ['Z'])))

/-- a date and a time of day in universal time, as they are printed -/
def written (date : Date) (hour minute second milli : Nat) : List Char :=
  (yearText date.year).toList ++ '-' :: ((padded 2 date.month).toList ++ '-' :: ((padded 2 date.day).toList ++ 'T' ::
    writtenTime hour minute second milli))

theorem toList_text (t : Instant) :
    t.text.toList = written (Date.ofDayNumber t.day) (t.second.val / 3600) (t.second.val / 60 % 60)
      (t.second.val % 60 + (if t.isLeap then 1 else 0)) (t.nano.val % 1000000000 / 1000000) := by
  simp [text, written, writtenTime]

section Written

variable {date : Date} {hour minute second milli : Nat}

/-- a time of day is read as it is printed -/
theorem timeOn?_writtenTime (hdate : date.isValid = true) (hhour : hour < 24) (hminute : minute < 60)
    (hsecond : second ≤ 60) (hmilli : milli < 1000) :
    timeOn? date (writtenTime hour minute second milli) =
      some (ofLocal date hour minute second (milli * 1000000) 0) := by
  rw [timeOn?, writtenTime]
  -- the fields one after the other, each from its own digits
  refine Option.bind_eq_some_iff.2 ⟨_, fixed?_padded (by decide) (by omega) _, ?_⟩
  refine Option.bind_eq_some_iff.2 ⟨_, after?_cons _ _, ?_⟩
  refine Option.bind_eq_some_iff.2 ⟨_, fixed?_padded (by decide) (by omega) _, ?_⟩
  refine Option.bind_eq_some_iff.2 ⟨_, after?_cons _ _, ?_⟩
  refine Option.bind_eq_some_iff.2 ⟨_, fixed?_padded (by decide) (by omega) _, ?_⟩
  refine Option.bind_eq_some_iff.2 ⟨_, fraction?_padded hmilli _, ?_⟩
  refine Option.bind_eq_some_iff.2 ⟨(0, []), rfl, ?_⟩
  exact if_pos ⟨rfl, hdate, hhour, hminute, hsecond⟩

/-- a date of the calendar and a time of day are read as they are printed, when the year has four digits -/
theorem ofRfc3339?_written (hyear : date.FourDigitYear) (hdate : date.isValid = true) (hhour : hour < 24)
    (hminute : minute < 60) (hsecond : second ≤ 60) (hmilli : milli < 1000) :
    ofRfc3339? (written date hour minute second milli) = some (ofLocal date hour minute second (milli * 1000000) 0) := by
  obtain ⟨⟨-, hmonth⟩, -, hday⟩ := Date.month_day_le hdate
  obtain ⟨year, month, day⟩ := date
  obtain ⟨year, rfl⟩ := Int.eq_ofNat_of_zero_le hyear.1
  have hlast : (year : Int) ≤ 9999 := hyear.2
  have htext : yearText year = padded 4 year := if_pos hyear
  rw [ofRfc3339?, written, htext]
  refine Option.bind_eq_some_iff.2 ⟨_, fixed?_padded (by decide) (by omega) _, ?_⟩
  refine Option.bind_eq_some_iff.2 ⟨_, after?_cons _ _, ?_⟩
  refine Option.bind_eq_some_iff.2 ⟨_, fixed?_padded (by decide) (Nat.lt_of_le_of_lt hmonth (by decide)) _, ?_⟩
  refine Option.bind_eq_some_iff.2 ⟨_, after?_cons _ _, ?_⟩
  refine Option.bind_eq_some_iff.2 ⟨_, fixed?_padded (by decide) (Nat.lt_of_le_of_lt hday (by decide)) _, ?_⟩
  refine (if_pos (.inl rfl)).trans (Option.bind_eq_some_iff.2 ⟨_, rfl, ?_⟩)
  exact timeOn?_writtenTime hdate hhour hminute hsecond hmilli

/-- the sign of a year is no digit -/
theorem yearText_of_not_fourDigitYear (h : ¬ date.FourDigitYear) :
    ∃ sign, sign.isDigit = false ∧ (yearText date.year).toList = sign :: (padded 4 date.year.natAbs).toList := by
  have htext : yearText date.year = (if date.year < 0 then "-" else "+") ++ padded 4 date.year.natAbs := if_neg h
  rw [htext, String.toList_append]
  split
  · exact ⟨'-', rfl, rfl⟩
  · exact ⟨'+', rfl, rfl⟩

theorem ofRfc3339?_written_eq_none (h : ¬ date.FourDigitYear) :
    ofRfc3339? (written date hour minute second milli) = none := by
  obtain ⟨sign, hsign, htext⟩ := yearText_of_not_fourDigitYear h
  rw [ofRfc3339?, written, htext, List.cons_append, fixed?_of_not_digit hsign]
  rfl

theorem length_written (h : ¬ date.FourDigitYear) :
    25 ≤ (written date hour minute second milli).length := by
  obtain ⟨sign, -, htext⟩ := yearText_of_not_fourDigitYear h
  have hyear := le_length_padded 4 date.year.natAbs
  have hmonth := le_length_padded 2 date.month
  have hday := le_length_padded 2 date.day
  have hhour := le_length_padded 2 hour
  have hminute := le_length_padded 2 minute
  have hsecond := le_length_padded 2 second
  have hmilli := le_length_padded 3 milli
  simp only [written, writtenTime, htext, List.length_append, List.length_cons, List.length_nil]
  omega

end Written

/-! ## Instants -/

/-- the instant in whole milliseconds, the rest cut off -/
def wholeMillis (t : Instant) : Instant := { t with nano := ⟨t.nano.val / 1000000 * 1000000, by omega⟩ }

/-- the instant is in a leap second only after the last second of a minute -/
def LeapEndsMinute (t : Instant) : Prop := t.isLeap = true → t.second.val % 60 = 59

/-- a leap second is written as second 60, and no other second is -/
theorem writtenSecond_eq {t : Instant} (h : t.LeapEndsMinute) :
    (t.second.val % 60 + (if t.isLeap then 1 else 0) = 60 ↔ t.isLeap = true) ∧
      Nat.min (t.second.val % 60 + (if t.isLeap then 1 else 0)) 59 = t.second.val % 60 := by
  have hlt : t.second.val % 60 < 60 := Nat.mod_lt _ (by decide)
  cases hleap : t.isLeap with
  | true =>
    rw [h hleap]
    decide
  | false => exact ⟨⟨fun heq => absurd heq (Nat.ne_of_lt hlt), fun hfalse => absurd hfalse (by decide)⟩,
      Nat.min_eq_left (Nat.le_of_lt_succ hlt)⟩

/-- an instant is at its own date and time of day in universal time -/
theorem ofLocal_universal {t : Instant} (h : t.LeapEndsMinute) :
    ofLocal (Date.ofDayNumber t.day) (t.second.val / 3600) (t.second.val / 60 % 60)
      (t.second.val % 60 + (if t.isLeap then 1 else 0)) (t.nano.val % 1000000000 / 1000000 * 1000000) 0 = t.wholeMillis := by
  obtain ⟨hsixty, hsecond⟩ := writtenSecond_eq h
  have hlt := t.second.isLt
  have hnano := t.nano.isLt
  have hleap : t.isLeap = true ↔ 1000000000 ≤ t.nano.val := decide_eq_true_iff
  simp only [ofLocal, wholeMillis, Date.dayNumber_ofDayNumber, hsixty, hsecond, Instant.mk.injEq, Fin.ext_iff, Fin.ofNat]
  refine ⟨by omega, by omega, ?_⟩
  simp only [hleap]
  split <;> omega

/-- **An instant is read back from its text without what is finer than a millisecond,** when its year has four digits. -/
theorem ofRfc3339?_text {t : Instant} (hyear : (Date.ofDayNumber t.day).FourDigitYear) (h : t.LeapEndsMinute) :
    ofRfc3339? t.text.toList = some t.wholeMillis := by
  have hlt := t.second.isLt
  rw [toList_text, ofRfc3339?_written hyear (Date.isValid_ofDayNumber t.day) (by omega) (by omega) (by split <;> omega)
    (by omega), ofLocal_universal h]

/-- a text has a byte or more for each character -/
theorem length_le_utf8ByteSize (s : String) : s.toList.length ≤ s.utf8ByteSize := by
  have hbytes : ∀ cs : List Char, cs.length ≤ String.utf8Len cs := by
    intro cs
    induction cs with
    | nil => exact Nat.le_refl 0
    | cons c cs ih => exact Nat.add_le_add ih c.utf8Size_pos
  calc s.toList.length ≤ String.utf8Len s.toList := hbytes s.toList
    _ = (String.ofList s.toList).utf8ByteSize := (String.utf8ByteSize_ofList s.toList).symm
    _ = s.utf8ByteSize := by rw [String.ofList_toList]

/-- **The text of an instant whose year has a sign is no timestamp.** -/
theorem ofText?_text_eq_none {t : Instant} (hyear : ¬ (Date.ofDayNumber t.day).FourDigitYear) :
    ofText? t.text = none := by
  have hlength : 25 ≤ t.text.toList.length := toList_text t ▸ length_written hyear
  have hbytes := length_le_utf8ByteSize t.text
  rw [ofText?, toList_text, ofRfc3339?_written_eq_none hyear]
  exact if_neg (by omega)

theorem ofText?_text {t : Instant} (hyear : (Date.ofDayNumber t.day).FourDigitYear) (h : t.LeapEndsMinute) :
    ofText? t.text = some t.wholeMillis := by
  rw [ofText?, ofRfc3339?_text hyear h]

/-! ## Instants that have been read -/

/-- a date of four digits and a time of day, ahead of universal time by less than a day -/
structure LocalTime (date : Date) (hour minute second nano : Nat) (offset : Int) : Prop where
  year : date.FourDigitYear
  date : date.isValid = true
  hour : hour < 24
  minute : minute < 60
  second : second ≤ 60
  nano : nano < 1000000000
  offset : -1440 < offset ∧ offset < 1440

theorem fixed?_lt {n m : Nat} {cs rest : List Char} (h : fixed? n cs = some (m, rest)) : m < 10 ^ n := by
  simp only [fixed?, Option.ite_none_right_eq_some, Option.some.injEq, Prod.mk.injEq] at h
  obtain ⟨⟨hlength, hdigits⟩, rfl, -⟩ := h
  have hlt := Decimal.ofDigits_lt (List.all_eq_true.1 hdigits)
  rwa [hlength] at hlt

theorem offset?_lt {cs rest : List Char} {offset : Int} (h : offset? cs = some (offset, rest)) :
    -1440 < offset ∧ offset < 1440 := by
  cases cs with
  | nil => exact absurd h (by simp [offset?])
  | cons c cs =>
    simp only [offset?] at h
    split at h
    · obtain ⟨rfl, -⟩ : 0 = offset ∧ cs = rest := by simpa using h
      decide
    · split at h
      · simp only [Option.bind_eq_bind, Option.bind_eq_some_iff, Option.ite_none_right_eq_some] at h
        obtain ⟨hours, -, -, -, minutes, -, ⟨hhours, hminutes⟩, h⟩ := h
        obtain ⟨rfl, -⟩ : _ = offset ∧ minutes.2 = rest := by simpa using h
        split <;> omega
      · exact absurd h (by simp)

theorem exists_timeOn?_of_ofRfc3339? {cs : List Char} {t : Instant} (h : ofRfc3339? cs = some t) :
    ∃ date rest, date.FourDigitYear ∧ timeOn? date rest = some t := by
  -- the fields one after the other; only the year is bounded by its width alone
  obtain ⟨⟨year, cs⟩, hyear, h⟩ := Option.bind_eq_some_iff.1 h
  obtain ⟨cs, -, h⟩ := Option.bind_eq_some_iff.1 h
  obtain ⟨⟨month, cs⟩, -, h⟩ := Option.bind_eq_some_iff.1 h
  obtain ⟨cs, -, h⟩ := Option.bind_eq_some_iff.1 h
  obtain ⟨⟨day, cs⟩, -, h⟩ := Option.bind_eq_some_iff.1 h
  have hlast : (year : Int) ≤ 9999 := by
    have := fixed?_lt hyear
    omega
  cases cs with
  | nil => exact absurd (show none = some t from h) (by simp)
  | cons separator cs =>
    by_cases hseparator : separator = 'T' ∨ separator = 't' ∨ separator = ' '
    · exact ⟨⟨year, month, day⟩, cs, ⟨Int.natCast_nonneg year, hlast⟩, (if_pos hseparator).symm.trans h⟩
    · exact absurd (show none = some t from (if_neg hseparator).symm.trans h) (by simp)

theorem exists_ofLocal_of_timeOn? {date : Date} {cs : List Char} {t : Instant} (hyear : date.FourDigitYear)
    (h : timeOn? date cs = some t) :
    ∃ hour minute second nano offset,
      LocalTime date hour minute second nano offset ∧ ofLocal date hour minute second nano offset = t := by
  obtain ⟨⟨hour, cs⟩, -, h⟩ := Option.bind_eq_some_iff.1 h
  obtain ⟨cs, -, h⟩ := Option.bind_eq_some_iff.1 h
  obtain ⟨⟨minute, cs⟩, -, h⟩ := Option.bind_eq_some_iff.1 h
  obtain ⟨cs, -, h⟩ := Option.bind_eq_some_iff.1 h
  obtain ⟨⟨second, cs⟩, -, h⟩ := Option.bind_eq_some_iff.1 h
  obtain ⟨⟨nano, cs⟩, hnano, h⟩ := Option.bind_eq_some_iff.1 h
  obtain ⟨⟨offset, cs⟩, hoffset, h⟩ := Option.bind_eq_some_iff.1 h
  obtain ⟨⟨-, hdate, hhour, hminute, hsecond⟩, h⟩ := Option.ite_none_right_eq_some.1 h
  refine ⟨hour, minute, second, nano, offset, ?_, Option.some.inj h⟩
  exact {
    year := hyear
    date := hdate
    hour := hhour
    minute := hminute
    second := hsecond
    nano := fraction?_lt hnano
    offset := offset?_lt hoffset }

/-- an instant that is read is a local time -/
theorem exists_ofLocal_of_ofRfc3339? {cs : List Char} {t : Instant} (h : ofRfc3339? cs = some t) :
    ∃ date hour minute second nano offset,
      LocalTime date hour minute second nano offset ∧ ofLocal date hour minute second nano offset = t := by
  obtain ⟨date, rest, hyear, htime⟩ := exists_timeOn?_of_ofRfc3339? h
  exact ⟨date, exists_ofLocal_of_timeOn? hyear htime⟩

section LocalTime

variable {date : Date} {hour minute second nano : Nat} {offset : Int}
  (h : LocalTime date hour minute second nano offset)

include h

/-- only second 60 of a minute is kept as a leap second -/
theorem LocalTime.leapEndsMinute : (ofLocal date hour minute second nano offset).LeapEndsMinute := by
  intro hleap
  have hlt := h.nano
  have hsixty : second = 60 := by
    by_contra hne
    simp only [isLeap, ofLocal, Fin.ofNat, if_neg hne, decide_eq_true_eq] at hleap
    omega
  simp only [ofLocal, Fin.ofNat, hsixty, show Nat.min 60 59 = 59 from rfl]
  omega

/-- a local time is at most one day away from its date in universal time -/
theorem LocalTime.day_ofLocal :
    date.dayNumber - 1 ≤ (ofLocal date hour minute second nano offset).day ∧
      (ofLocal date hour minute second nano offset).day ≤ date.dayNumber + 1 := by
  obtain ⟨-, -, hhour, hminute, -, -, hback, hahead⟩ := h
  simp only [ofLocal]
  omega

/-- out of the years of four digits, a local time is on the day before them or on the day after -/
theorem LocalTime.ofDayNumber_of_not_fourDigitYear
    (hyear : ¬ (Date.ofDayNumber (ofLocal date hour minute second nano offset).day).FourDigitYear) :
    Date.ofDayNumber (ofLocal date hour minute second nano offset).day = ⟨-1, 12, 31⟩ ∨
      Date.ofDayNumber (ofLocal date hour minute second nano offset).day = ⟨10000, 1, 1⟩ := by
  obtain ⟨hfirst, hlast⟩ := Date.dayNumber_of_fourDigitYear h.year h.date
  obtain ⟨hback, hahead⟩ := h.day_ofLocal
  rw [Date.fourDigitYear_ofDayNumber] at hyear
  rcases (by omega : (ofLocal date hour minute second nano offset).day = -61 ∨
      (ofLocal date hour minute second nano offset).day = 3652365) with hday | hday
  · exact .inl (by rw [hday]; rfl)
  · exact .inr (by rw [hday]; rfl)

end LocalTime

theorem leapEndsMinute_of_ofRfc3339? {cs : List Char} {t : Instant} (h : ofRfc3339? cs = some t) : t.LeapEndsMinute := by
  obtain ⟨date, hour, minute, second, nano, offset, hlocal, rfl⟩ := exists_ofLocal_of_ofRfc3339? h
  exact hlocal.leapEndsMinute

end Instant

end Proviso
