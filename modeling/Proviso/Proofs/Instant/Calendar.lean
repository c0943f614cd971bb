/-
Day numbers and dates of the calendar stand for each other.

A cycle of 400 years is cut into centuries, spans of four years, and years, each as long as the calendar makes it but the
last one, which may have a day more (`Parts`, `exists_parts`). From the parts, the year of the cycle comes out by one
division (`Parts.year_eq`), and so does the place of the day in its year. With the months counted from March, every day
number has a date that the calendar has (`isValid_ofDayNumber`), and is the number of that date
(`dayNumber_ofDayNumber`).
-/
import Proviso.Instant

namespace Proviso

namespace Date

/-! ## Parts of a cycle -/

/-- A day of the 400-year cycle: centuries, spans of four years and years before it, and its place in its year. Only the
last year of a span has 366 days, and of the last span in a century only when the century is the last one. -/
structure Parts (day century span year dayOfYear : Nat) : Prop where
  day_eq : day = 36524 * century + 1461 * span + 365 * year + dayOfYear
  century_le : century ≤ 3
  span_le : span ≤ 24
  year_le : year ≤ 3
  dayOfYear_le : dayOfYear ≤ 365
  leap : dayOfYear = 365 → year = 3 ∧ (span = 24 → century = 3)

theorem exists_parts {day : Nat} (h : day < 146097) :
    ∃ century span year dayOfYear, Parts day century span year dayOfYear := by
  obtain ⟨century, inCentury, hcentury, hday, hinCentury, hlast⟩ :
      ∃ century inCentury, century ≤ 3 ∧ day = 36524 * century + inCentury ∧ inCentury ≤ 36524 ∧
        (inCentury = 36524 → century = 3) := by
    refine ⟨min (day / 36524) 3, day - 36524 * min (day / 36524) 3, ?_, ?_, ?_, ?_⟩ <;> omega
  obtain ⟨span, inSpan, hspan, hinSpan, hspanDay⟩ :
      ∃ span inSpan, span ≤ 24 ∧ inSpan ≤ 1460 ∧ inCentury = 1461 * span + inSpan := by
    refine ⟨inCentury / 1461, inCentury % 1461, ?_, ?_, ?_⟩ <;> omega
  obtain ⟨year, dayOfYear, hyear, hdayOfYear, hyearDay, hleap⟩ :
      ∃ year dayOfYear, year ≤ 3 ∧ dayOfYear ≤ 365 ∧ inSpan = 365 * year + dayOfYear ∧
        (dayOfYear = 365 → year = 3) := by
    refine ⟨min (inSpan / 365) 3, inSpan - 365 * min (inSpan / 365) 3, ?_, ?_, ?_, ?_⟩ <;> omega
  refine ⟨century, span, year, dayOfYear, by omega, hcentury, hspan, hyear, hdayOfYear, fun hlong => ?_⟩
  exact ⟨hleap hlong, fun hlastSpan => hlast (by have := hleap hlong; omega)⟩

variable {day century span year dayOfYear : Nat}

/-- only the last day of the cycle is a day more than its centuries have -/
theorem Parts.century_eq (h : Parts day century span year dayOfYear) : day / 36524 = day / 146096 + century := by
  obtain ⟨hday, hcentury, hspan, hyear, hdayOfYear, hleap⟩ := h
  obtain ⟨inCentury, hin⟩ : ∃ inCentury, inCentury = 1461 * span + 365 * year + dayOfYear := ⟨_, rfl⟩
  have hle : inCentury ≤ 36524 := by omega
  have hlast : inCentury = 36524 → century = 3 := by omega
  obtain rfl : day = 36524 * century + inCentury := by omega
  clear hday hin hleap
  rcases Nat.lt_or_eq_of_le hle with hlt | rfl
  · omega
  · rw [hlast rfl]

/-- the quotient by the first 1460 days of a span counts the leap days before the day, and with it once it is late in its
span, where there are days to take it from -/
theorem Parts.span_eq (h : Parts day century span year dayOfYear) :
    ∃ late, day / 1460 = 25 * century + span + late ∧ late ≤ dayOfYear ∧ dayOfYear < 365 + late := by
  obtain ⟨hday, hcentury, hspan, hyear, hdayOfYear, hleap⟩ := h
  rcases Nat.lt_or_ge (24 * century + span + 365 * year + dayOfYear) 1460 with hearly | hlate
  · exact ⟨0, by clear hleap; omega, Nat.zero_le _, by omega⟩
  · exact ⟨1, by clear hleap; omega, by omega, by omega⟩

/-- the year of the cycle, by one division -/
theorem Parts.year_eq (h : Parts day century span year dayOfYear) :
    (day - day / 1460 + day / 36524 - day / 146096) / 365 = 100 * century + 4 * span + year := by
  obtain ⟨late, hspans, hle, hlt⟩ := h.span_eq
  have hday := h.day_eq
  have hdays : day - day / 1460 + day / 36524 - day / 146096 =
      (dayOfYear - late) + 365 * (100 * century + 4 * span + year) := by
    rw [h.century_eq, hspans]
    omega
  rw [hdays, Nat.add_mul_div_left _ _ (by decide), Nat.div_eq_of_lt (by omega), Nat.zero_add]

/-- the days of a cycle before a year of it -/
theorem Parts.dayOfYear_eq (h : Parts day century span year dayOfYear) {y : Nat}
    (hy : y = 100 * century + 4 * span + year) : day - (365 * y + y / 4 - y / 100) = dayOfYear := by
  obtain ⟨hday, hcentury, hspan, hyear, hdayOfYear, hleap⟩ := h
  have hfour : y / 4 = 25 * century + span := by omega
  have hhundred : y / 100 = century := by omega
  rw [hfour, hhundred]
  omega

/-! ## Months from March -/

/-- the date of a day whose year is counted from March, where the given year has its last ten months in the calendar -/
def ofMarch (year : Int) (dayOfYear : Nat) : Date :=
  let month := (5 * dayOfYear + 2) / 153
  { year := year + (if month < 10 then 0 else 1)
    month := if month < 10 then month + 3 else month - 9
    day := dayOfYear - (153 * month + 2) / 5 + 1 }

theorem dayNumber_ofMarch {dayOfYear : Nat} (h : dayOfYear ≤ 365) (year : Int) :
    (ofMarch year dayOfYear).dayNumber = 365 * year + year / 4 - year / 100 + year / 400 + dayOfYear := by
  obtain ⟨month, hmonth⟩ : ∃ month, (5 * dayOfYear + 2) / 153 = month := ⟨_, rfl⟩
  have hlast : month ≤ 11 := by omega
  have hstart : (153 * month + 2) / 5 ≤ dayOfYear := by omega
  simp only [ofMarch, dayNumber, hmonth]
  by_cases hspring : month < 10
  · have hafter : ¬ month + 3 ≤ 2 := by omega
    simp only [hspring, hafter, if_true, if_false]
    omega
  · have hbefore : month - 9 ≤ 2 := by omega
    simp only [hspring, hbefore, if_true, if_false, show month - 9 + 9 = month by omega, Int.add_sub_cancel]
    omega

theorem isValid_ofMarch {dayOfYear : Nat} (h : dayOfYear ≤ 365) {year : Int}
    (leap : dayOfYear = 365 → isLeapYear (year + 1) = true) : (ofMarch year dayOfYear).isValid = true := by
  obtain ⟨month, hmonth⟩ : ∃ month, (5 * dayOfYear + 2) / 153 = month := ⟨_, rfl⟩
  have hlast : month ≤ 11 := by omega
  simp only [ofMarch, isValid, hmonth, Bool.and_eq_true, decide_eq_true_eq]
  refine ⟨⟨⟨by split <;> omega, by split <;> omega⟩, Nat.succ_le_succ (Nat.zero_le _)⟩, ?_⟩
  rcases Nat.lt_or_eq_of_le hlast with hother | rfl
  · -- a month other than February has 31 days, or 30 when it is one of four
    have hnot : (if month < 10 then month + 3 else month - 9) ≠ 2 := by split <;> omega
    rw [daysIn, if_neg hnot]
    split <;> split <;> omega
  · -- February comes last, and its 29th is the last day of the year
    have hfebruary : daysIn (year + 1) 2 = if isLeapYear (year + 1) then 29 else 28 := rfl
    simp only [show ¬ (11 < 10) by decide, if_false, hfebruary]
    rcases Nat.lt_or_eq_of_le h with hshort | hlong
    · split <;> omega
    · rw [if_pos (leap hlong)]
      omega

/-! ## Dates -/

/-- a day number is a day of a year of a cycle, and of its date -/
theorem exists_ofMarch (n : Int) :
    ∃ (year : Int) (dayOfYear : Nat), ofDayNumber n = ofMarch year dayOfYear ∧ dayOfYear ≤ 365 ∧
      (dayOfYear = 365 → isLeapYear (year + 1) = true) ∧
      365 * year + year / 4 - year / 100 + year / 400 + dayOfYear = n := by
  have hcycle : (n % 146097).toNat < 146097 := by omega
  obtain ⟨century, span, year, dayOfYear, h⟩ := exists_parts hcycle
  obtain ⟨y, hy⟩ : ∃ y, y = 100 * century + 4 * span + year := ⟨_, rfl⟩
  refine ⟨n / 146097 * 400 + y, dayOfYear, ?_, h.dayOfYear_le, fun hlong => ?_, ?_⟩
  · have hyear := h.year_eq
    rw [← hy] at hyear
    simp only [ofDayNumber, hyear, h.dayOfYear_eq hy]
    rfl
  · obtain ⟨hlast, hcentury⟩ := h.leap hlong
    have hspan := h.span_le
    have hle := h.century_le
    simp only [isLeapYear, Bool.and_eq_true, Bool.or_eq_true, beq_iff_eq, bne_iff_ne]
    omega
  · obtain ⟨hday, hcentury, hspan, hyear, -, -⟩ := h
    omega

/-- **The date of a day number is a date of the calendar.** -/
theorem isValid_ofDayNumber (n : Int) : (ofDayNumber n).isValid = true := by
  obtain ⟨year, dayOfYear, hdate, hle, hleap, -⟩ := exists_ofMarch n
  rw [hdate]
  exact isValid_ofMarch hle hleap

/-- **A day number is the number of its date.** -/
theorem dayNumber_ofDayNumber (n : Int) : (ofDayNumber n).dayNumber = n := by
  obtain ⟨year, dayOfYear, hdate, hle, -, hnumber⟩ := exists_ofMarch n
  rw [hdate, dayNumber_ofMarch hle, hnumber]

/-! ## Years of four digits -/

/-- the year is written in four digits -/
def FourDigitYear (date : Date) : Prop := 0 ≤ date.year ∧ date.year ≤ 9999

theorem daysIn_le (year : Int) (month : Nat) : daysIn year month ≤ 31 := by
  unfold daysIn
  split
  · split <;> decide
  · split <;> decide

theorem month_day_le {date : Date} (h : date.isValid = true) :
    (1 ≤ date.month ∧ date.month ≤ 12) ∧ 1 ≤ date.day ∧ date.day ≤ 31 := by
  have hdays := daysIn_le date.year date.month
  simp only [isValid, Bool.and_eq_true, decide_eq_true_eq] at h
  omega

/-- the days before a year, counted from the year 0, grow with the year -/
theorem daysBefore_mono {a b : Int} (h : a ≤ b) :
    365 * a + a / 4 - a / 100 + a / 400 ≤ 365 * b + b / 4 - b / 100 + b / 400 := by
  rcases Int.lt_or_eq_of_le h with hlt | rfl
  · omega
  · exact Int.le_refl _

/-- the years of four digits have the days from 1 January of year 0 to 31 December of year 9999 -/
theorem fourDigitYear_ofDayNumber (n : Int) : (ofDayNumber n).FourDigitYear ↔ -60 ≤ n ∧ n ≤ 3652364 := by
  obtain ⟨year, dayOfYear, hdate, hle, -, hnumber⟩ := exists_ofMarch n
  simp only [hdate, FourDigitYear, ofMarch]
  -- the year from March before the first of these years, the last of them, and all others
  rcases (by omega : year ≤ -2 ∨ year = -1 ∨ (0 ≤ year ∧ year ≤ 9998) ∨ year = 9999 ∨ 10000 ≤ year) with
    hbefore | rfl | ⟨hfirst, hlast⟩ | rfl | hafter
  · have := daysBefore_mono hbefore
    omega
  · omega
  · have := daysBefore_mono hfirst
    have := daysBefore_mono hlast
    omega
  · omega
  · have := daysBefore_mono hafter
    omega

theorem dayNumber_of_fourDigitYear {date : Date} (hyear : date.FourDigitYear) (hdate : date.isValid = true) :
    -60 ≤ date.dayNumber ∧ date.dayNumber ≤ 3652364 := by
  obtain ⟨⟨hpos, hmonth⟩, hone, hday⟩ := month_day_le hdate
  obtain ⟨hfirst, hlast⟩ := hyear
  simp only [dayNumber]
  split
  · have hlow := daysBefore_mono (show -1 ≤ date.year - 1 by omega)
    have hhigh := daysBefore_mono (show date.year - 1 ≤ 9998 by omega)
    omega
  · have hlow := daysBefore_mono hfirst
    have hhigh := daysBefore_mono hlast
    omega

end Date

end Proviso
