/-
Bare dates: what is read for one, and what is documented as one.

Documented are four digits, two and two, with hyphens between them (`PlainlyWritten`). The reader is looser: it takes
blanks before each number, a sign with any number of digits as the year, and fewer digits everywhere (`LooselyWritten`,
`looseDate?_eq_some`). What holds it back is the length alone. A text of ten bytes without blanks and without a sign has
room for the documented digits and nothing else (`plainlyWritten_of_looselyWritten`), so a blank or a sign is what every
undocumented date has that is accepted (`bare_date_read_iff`).
-/
import Proviso.Proofs.Instant.Printing
import Proviso.Proofs.Token.Following

namespace Proviso.Instant

open Decimal (Numeral)

/-! ## Spellings -/

/-- a numeral of at most so many digits, with blanks before it or none -/
inductive Spaced (most n : Nat) : List Char → Prop
  | intro {blanks ds : List Char} (blank : ∀ c ∈ blanks, Text.isBlank c = true) (numeral : Numeral n ds)
      (short : ds.length ≤ most) : Spaced most n (blanks ++ ds)

/-- a year: up to four digits, or a sign and any number of them, with blanks before it or none -/
inductive SpacedYear : Int → List Char → Prop
  | unsigned {n : Nat} {cs : List Char} (h : Spaced 4 n cs) : SpacedYear n cs
  | plus {n : Nat} {blanks ds : List Char} (blank : ∀ c ∈ blanks, Text.isBlank c = true) (numeral : Numeral n ds) :
    SpacedYear n (blanks ++ '+' :: ds)
  | minus {n : Nat} {blanks ds : List Char} (blank : ∀ c ∈ blanks, Text.isBlank c = true) (numeral : Numeral n ds) :
    SpacedYear (-n) (blanks ++ '-' :: ds)

/-- a date as it may be spelt: a year, a month and a day, each of the last two with one digit or two, and blanks anywhere
before a number -/
inductive LooselyWritten : Date → List Char → Prop
  | intro {year : Int} {month day : Nat} {ys ms ds : List Char} (hyear : SpacedYear year ys) (hmonth : Spaced 2 month ms)
      (hday : Spaced 2 day ds) : LooselyWritten ⟨year, month, day⟩ (ys ++ '-' :: (ms ++ '-' :: ds))

/-- a date as it should be spelt: four digits, two and two, with hyphens between them -/
inductive PlainlyWritten : Date → List Char → Prop
  | intro {year month day : Nat} {ys ms ds : List Char} (hyear : Numeral year ys) (hmonth : Numeral month ms)
      (hday : Numeral day ds) (four : ys.length = 4) (two : ms.length = 2) (two' : ds.length = 2) :
    PlainlyWritten ⟨year, month, day⟩ (ys ++ '-' :: (ms ++ '-' :: ds))

/-- a blank anywhere, or a sign in front -/
def BlankOrSign (cs : List Char) : Prop := (∃ c ∈ cs, Text.isBlank c = true) ∨ ∃ c ∈ cs.head?, c = '+' ∨ c = '-'

/-! ## Reading a number -/

variable {most n : Nat} {cs rest own ds blanks : List Char} {year : Int} {date : Date}

theorem isBlank_eq_false_of_isDigit {c : Char} (h : c.isDigit = true) : Text.isBlank c = false :=
  Token.isBlank_eq_false_of_continuesIdentifier (Token.continuesIdentifier_of_isDigit h)

/-- what follows is no digit, so that a number ends here -/
def EndsNumber (rest : List Char) : Prop := ∀ c ∈ rest.head?, c.isDigit = false

theorem endsNumber_hyphen (rest : List Char) : EndsNumber ('-' :: rest) := by
  rintro c ⟨⟩
  rfl

theorem endsNumber_nil : EndsNumber [] := nofun

theorem dropWhile_blanks {c : Char} (hblank : ∀ c ∈ blanks, Text.isBlank c = true) (hc : Text.isBlank c = false) :
    (blanks ++ c :: rest).dropWhile Text.isBlank = c :: rest := by
  rw [List.dropWhile_append_of_pos hblank, List.dropWhile_cons_of_neg (by simp [hc])]

/-- a numeral begins with a digit -/
theorem exists_digit_cons (h : Numeral n ds) : ∃ c rest, ds = c :: rest ∧ c.isDigit = true := by
  have hdigits := h.isDigit
  obtain ⟨c, rest, rfl⟩ := h.exists_cons
  exact ⟨c, rest, rfl, hdigits c List.mem_cons_self⟩

theorem dropWhile_numeral (hblank : ∀ c ∈ blanks, Text.isBlank c = true) (hnumeral : Numeral n ds) (rest : List Char) :
    (blanks ++ ds ++ rest).dropWhile Text.isBlank = ds ++ rest := by
  obtain ⟨c, ds, rfl, hc⟩ := exists_digit_cons hnumeral
  rw [List.append_assoc]
  exact dropWhile_blanks hblank (isBlank_eq_false_of_isDigit hc)

theorem isEmpty_numeral (h : Numeral n ds) : ds.isEmpty = false := by
  obtain ⟨c, cs, rfl⟩ := h.exists_cons
  rfl

theorem spaced_of_numeral (h : Numeral n ds) (short : ds.length ≤ most) : Spaced most n ds :=
  @Spaced.intro most n [] ds nofun h short

/-- the digits at the beginning are a numeral -/
theorem numeral_takeWhile (h : (cs.takeWhile Char.isDigit).isEmpty = false) :
    Numeral (Decimal.ofDigits (cs.takeWhile Char.isDigit)) (cs.takeWhile Char.isDigit) :=
  Decimal.numeral_ofDigits (List.isEmpty_eq_false_iff.1 h) (List.all_eq_true.1 List.all_takeWhile)

theorem spaced_of_loose? (h : loose? most cs = some (n, rest)) : ∃ own, cs = own ++ rest ∧ Spaced most n own := by
  have hsplit := List.takeWhile_append_dropWhile (p := Text.isBlank) (l := cs)
  simp only [loose?] at h
  generalize cs.dropWhile Text.isBlank = after at h hsplit
  obtain ⟨ds, hds⟩ : ∃ ds, (after.take most).takeWhile Char.isDigit = ds := ⟨_, rfl⟩
  simp only [hds, Option.ite_none_left_eq_some, Option.some.injEq, Prod.mk.injEq] at h
  obtain ⟨hsome, rfl, rfl⟩ := h
  have hshort : ds.length ≤ most := hds ▸ (List.takeWhile_prefix _).length_le.trans (List.length_take_le _ _)
  have hnumeral : Numeral (Decimal.ofDigits ds) ds := by
    rw [← hds]
    exact numeral_takeWhile (by simpa [hds] using hsome)
  obtain ⟨tail, rfl⟩ : ds <+: after := hds ▸ (List.takeWhile_prefix _).trans (List.take_prefix _ _)
  refine ⟨cs.takeWhile Text.isBlank ++ ds, ?_, .intro (List.all_eq_true.1 List.all_takeWhile) hnumeral hshort⟩
  rw [List.drop_left, List.append_assoc, hsplit]

theorem loose?_of_spaced (h : Spaced most n own) (hrest : EndsNumber rest) :
    loose? most (own ++ rest) = some (n, rest) := by
  cases h with
  | @intro blanks ds blank numeral short =>
    have htake : ((ds ++ rest).take most).takeWhile Char.isDigit = ds := by
      rw [List.take_append, List.take_of_length_le short, Token.takeWhile_append_eq_iff numeral.isDigit]
      intro c hc
      rw [List.head?_take] at hc
      split at hc
      · cases hc
      · exact hrest c hc
    simp only [loose?, dropWhile_numeral blank numeral, htake, isEmpty_numeral numeral, numeral.ofDigits_eq,
      List.drop_left, Bool.false_eq_true, if_false]

/-- the digits of a year with a sign: as many as there are -/
theorem numeral_of_signed? (h : looseYear?.signed? cs = some (n, rest)) : ∃ ds, cs = ds ++ rest ∧ Numeral n ds := by
  have hsplit := List.takeWhile_append_dropWhile (p := Char.isDigit) (l := cs)
  simp only [looseYear?.signed?, Option.ite_none_left_eq_some, Option.some.injEq, Prod.mk.injEq] at h
  obtain ⟨hsome, rfl, rfl⟩ := h
  refine ⟨cs.takeWhile Char.isDigit, ?_, numeral_takeWhile (by simpa using hsome)⟩
  rw [List.prefix_iff_eq_append.1 (List.takeWhile_prefix _)]

theorem signed?_of_numeral (h : Numeral n ds) (hrest : EndsNumber rest) :
    looseYear?.signed? (ds ++ rest) = some (n, rest) := by
  have htake : (ds ++ rest).takeWhile Char.isDigit = ds := (Token.takeWhile_append_eq_iff h.isDigit rest).2 hrest
  simp only [looseYear?.signed?, htake, isEmpty_numeral h, h.ofDigits_eq, List.drop_left, Bool.false_eq_true, if_false]

theorem spacedYear_of_looseYear? (h : looseYear? cs = some (year, rest)) :
    ∃ own, cs = own ++ rest ∧ SpacedYear year own := by
  have hsplit := List.takeWhile_append_dropWhile (p := Text.isBlank) (l := cs)
  have hblank : ∀ c ∈ cs.takeWhile Text.isBlank, Text.isBlank c = true := List.all_eq_true.1 List.all_takeWhile
  generalize cs.takeWhile Text.isBlank = blanks at hsplit hblank
  unfold looseYear? at h
  split at h
  · next more hdrop =>
    obtain ⟨⟨n, tail⟩, hsigned, heq⟩ := Option.map_eq_some_iff.1 h
    obtain ⟨rfl, rfl⟩ := Prod.mk.inj heq
    obtain ⟨ds, rfl, hnumeral⟩ := numeral_of_signed? hsigned
    refine ⟨blanks ++ '-' :: ds, ?_, .minus hblank hnumeral⟩
    rw [← hsplit, hdrop, List.append_assoc, List.cons_append]
  · next more hdrop =>
    obtain ⟨⟨n, tail⟩, hsigned, heq⟩ := Option.map_eq_some_iff.1 h
    obtain ⟨rfl, rfl⟩ := Prod.mk.inj heq
    obtain ⟨ds, rfl, hnumeral⟩ := numeral_of_signed? hsigned
    refine ⟨blanks ++ '+' :: ds, ?_, .plus hblank hnumeral⟩
    rw [← hsplit, hdrop, List.append_assoc, List.cons_append]
  · next after _ _ =>
    obtain ⟨⟨n, tail⟩, hloose, heq⟩ := Option.map_eq_some_iff.1 h
    obtain ⟨rfl, rfl⟩ := Prod.mk.inj heq
    obtain ⟨own, hown, hspaced⟩ := spaced_of_loose? hloose
    cases hspaced with
    | @intro inner ds blank numeral short =>
      refine ⟨blanks ++ inner ++ ds, ?_, .unsigned (.intro ?_ numeral short)⟩
      · rw [← hsplit, hown]
        simp only [List.append_assoc]
      · exact List.forall_mem_append.2 ⟨hblank, blank⟩

theorem looseYear?_of_spacedYear (h : SpacedYear year own) (hrest : EndsNumber rest) :
    looseYear? (own ++ rest) = some (year, rest) := by
  cases h with
  | @unsigned n _ h =>
    cases h with
    | @intro blanks ds blank numeral short =>
      -- the blanks are left out twice, once to look for a sign and once before the digits
      have hdrop := dropWhile_numeral blank numeral rest
      have hloose : loose? 4 (ds ++ rest) = some (n, rest) :=
        loose?_of_spaced (spaced_of_numeral numeral short) hrest
      have hsign (c : Char) (hc : c.isDigit = false) (more : List Char) : ds ++ rest ≠ c :: more := by
        obtain ⟨d, ds, rfl, hd⟩ := exists_digit_cons numeral
        intro heq
        obtain rfl := (List.cons.inj heq).1
        exact absurd (hc.symm.trans hd) (by decide)
      unfold looseYear?
      split
      · next heq => exact absurd (hdrop.symm.trans heq) (hsign '-' rfl _)
      · next heq => exact absurd (hdrop.symm.trans heq) (hsign '+' rfl _)
      · rw [hdrop, hloose, Option.map_some]
  | @plus n blanks ds blank numeral =>
    have hdrop : (blanks ++ '+' :: ds ++ rest).dropWhile Text.isBlank = '+' :: (ds ++ rest) := by
      rw [List.append_assoc]
      exact dropWhile_blanks blank (by decide)
    simp only [looseYear?, hdrop, signed?_of_numeral numeral hrest, Option.map_some]
  | @minus n blanks ds blank numeral =>
    have hdrop : (blanks ++ '-' :: ds ++ rest).dropWhile Text.isBlank = '-' :: (ds ++ rest) := by
      rw [List.append_assoc]
      exact dropWhile_blanks blank (by decide)
    simp only [looseYear?, hdrop, signed?_of_numeral numeral hrest, Option.map_some]

/-! ## Reading a date -/

theorem after?_eq_some {c : Char} : after? c cs = some rest ↔ cs = c :: rest := by
  cases cs with
  | nil => simp [after?]
  | cons d cs => simp [after?]

/-- **A date is read loosely,** and whatever is spelt so is read, when the calendar has it. -/
theorem looseDate?_eq_some : looseDate? cs = some date ↔ LooselyWritten date cs ∧ date.isValid = true := by
  constructor
  · intro h
    obtain ⟨⟨year, afterYear⟩, hyear, h⟩ := Option.bind_eq_some_iff.1 h
    obtain ⟨beforeMonth, hhyphen, h⟩ := Option.bind_eq_some_iff.1 h
    obtain ⟨⟨month, afterMonth⟩, hmonth, h⟩ := Option.bind_eq_some_iff.1 h
    obtain ⟨beforeDay, hhyphen', h⟩ := Option.bind_eq_some_iff.1 h
    obtain ⟨⟨day, afterDay⟩, hday, h⟩ := Option.bind_eq_some_iff.1 h
    obtain ⟨⟨hend, hvalid⟩, hdate⟩ := Option.ite_none_right_eq_some.1 h
    obtain rfl := Option.some.inj hdate
    obtain rfl := after?_eq_some.1 hhyphen
    obtain rfl := after?_eq_some.1 hhyphen'
    obtain rfl := List.isEmpty_iff.1 hend
    obtain ⟨ys, rfl, hys⟩ := spacedYear_of_looseYear? hyear
    obtain ⟨ms, rfl, hms⟩ := spaced_of_loose? hmonth
    obtain ⟨ds, rfl, hds⟩ := spaced_of_loose? hday
    rw [List.append_nil]
    exact ⟨.intro hys hms hds, hvalid⟩
  · rintro ⟨hwritten, hvalid⟩
    cases hwritten with
    | @intro year month day ys ms ds hyear hmonth hday =>
      have hlast : loose? 2 ds = some (day, []) := by simpa using loose?_of_spaced hday endsNumber_nil
      refine Option.bind_eq_some_iff.2 ⟨_, looseYear?_of_spacedYear hyear (endsNumber_hyphen _), ?_⟩
      refine Option.bind_eq_some_iff.2 ⟨_, after?_cons _ _, ?_⟩
      refine Option.bind_eq_some_iff.2 ⟨_, loose?_of_spaced hmonth (endsNumber_hyphen _), ?_⟩
      refine Option.bind_eq_some_iff.2 ⟨_, after?_cons _ _, ?_⟩
      exact Option.bind_eq_some_iff.2 ⟨_, hlast, if_pos ⟨rfl, hvalid⟩⟩

/-- a text that is no date with a time of day is read as a date of ten bytes -/
theorem ofText?_eq_some_of_bare {s : String} {t : Instant} (h : ofRfc3339? s.toList = none) :
    ofText? s = some t ↔
      s.utf8ByteSize = 10 ∧ ∃ date, LooselyWritten date s.toList ∧ date.isValid = true ∧ midnight date = t := by
  rw [ofText?, h]
  simp only [Option.ite_none_right_eq_some, Option.map_eq_some_iff, looseDate?_eq_some, and_assoc]

/-! ## Ten bytes -/

theorem utf8Size_of_isDigit {c : Char} (h : c.isDigit = true) : c.utf8Size = 1 := by
  rw [Char.utf8Size_eq_one_iff]
  exact (Char.isDigit_iff_toNat.1 h).2.trans (by decide)

theorem utf8Len_digits (h : ∀ c ∈ ds, c.isDigit = true) : String.utf8Len ds = ds.length := by
  induction ds with
  | nil => rfl
  | cons c ds ih =>
    rw [String.utf8Len_cons, ih fun x hx => h x (List.mem_cons_of_mem c hx),
      utf8Size_of_isDigit (h c List.mem_cons_self), List.length_cons]

/-- three numerals with hyphens between them have a byte for each character -/
theorem utf8Len_hyphened {y m d : Nat} {ys ms ds : List Char} (hyear : Numeral y ys) (hmonth : Numeral m ms)
    (hday : Numeral d ds) :
    String.utf8Len (ys ++ '-' :: (ms ++ '-' :: ds)) = ys.length + ms.length + ds.length + 2 := by
  have hhyphen : '-'.utf8Size = 1 := rfl
  simp only [String.utf8Len_append, String.utf8Len_cons, hhyphen, utf8Len_digits hyear.isDigit,
    utf8Len_digits hmonth.isDigit, utf8Len_digits hday.isDigit]
  omega

theorem length_numeral_pos (h : Numeral n ds) : 0 < ds.length := by
  obtain ⟨c, cs, rfl⟩ := h.exists_cons
  exact Nat.succ_pos _

theorem PlainlyWritten.utf8Len (h : PlainlyWritten date cs) : String.utf8Len cs = 10 := by
  obtain ⟨hyear, hmonth, hday, four, two, two'⟩ := h
  rw [utf8Len_hyphened hyear hmonth hday, four, two, two']

theorem PlainlyWritten.looselyWritten (h : PlainlyWritten date cs) : LooselyWritten date cs := by
  obtain ⟨hyear, hmonth, hday, four, two, two'⟩ := h
  exact .intro (.unsigned (spaced_of_numeral hyear four.le)) (spaced_of_numeral hmonth two.le)
    (spaced_of_numeral hday two'.le)

theorem PlainlyWritten.not_blankOrSign (h : PlainlyWritten date cs) : ¬ BlankOrSign cs := by
  cases h with
  | @intro year month day ys ms ds hyear hmonth hday four two two' =>
    rintro (⟨c, hc, hblank⟩ | ⟨c, hhead, hsign⟩)
    · have hdigit {ds : List Char} (hdigits : ∀ c ∈ ds, c.isDigit = true) (hc : c ∈ ds) : False := by
        rw [isBlank_eq_false_of_isDigit (hdigits c hc)] at hblank
        cases hblank
      simp only [List.mem_append, List.mem_cons] at hc
      rcases hc with hc | rfl | hc | rfl | hc
      · exact hdigit hyear.isDigit hc
      · exact absurd hblank (by decide)
      · exact hdigit hmonth.isDigit hc
      · exact absurd hblank (by decide)
      · exact hdigit hday.isDigit hc
    · obtain ⟨d, ds, rfl, hd⟩ := exists_digit_cons hyear
      obtain rfl : d = c := Option.some.inj hhead
      rcases hsign with rfl | rfl <;> exact absurd hd (by decide)

theorem eq_nil_of_blank (blank : ∀ c ∈ blanks, Text.isBlank c = true)
    (hnone : ∀ c ∈ blanks ++ rest, Text.isBlank c = false) : blanks = [] := by
  refine List.eq_nil_iff_forall_not_mem.2 fun c hc => ?_
  have hfalse := hnone c (List.mem_append_left rest hc)
  rw [blank c hc] at hfalse
  cases hfalse

/-- without a blank before it a numeral is all there is -/
theorem Spaced.numeral (h : Spaced most n cs) (hnone : ∀ c ∈ cs, Text.isBlank c = false) :
    Numeral n cs ∧ cs.length ≤ most := by
  obtain ⟨blank, numeral, short⟩ := h
  obtain rfl := eq_nil_of_blank blank hnone
  exact ⟨numeral, short⟩

/-- without a blank before it and without a sign a year is a numeral of up to four digits -/
theorem SpacedYear.numeral (h : SpacedYear year cs) (hnone : ∀ c ∈ cs, Text.isBlank c = false)
    (hsign : ∀ c ∈ cs.head?, ¬ (c = '+' ∨ c = '-')) : ∃ n : Nat, year = n ∧ Numeral n cs ∧ cs.length ≤ 4 := by
  cases h with
  | @unsigned n _ h => exact ⟨n, rfl, h.numeral hnone⟩
  | plus blank _ =>
    obtain rfl := eq_nil_of_blank blank hnone
    exact absurd (.inl rfl) (hsign '+' rfl)
  | minus blank _ =>
    obtain rfl := eq_nil_of_blank blank hnone
    exact absurd (.inr rfl) (hsign '-' rfl)

/-- **Ten bytes have room for the documented digits and nothing else,** but for blanks and a sign. -/
theorem plainlyWritten_of_looselyWritten (h : LooselyWritten date cs) (hbytes : String.utf8Len cs = 10)
    (hnone : ¬ BlankOrSign cs) : PlainlyWritten date cs := by
  obtain ⟨hblank, hsign⟩ := not_or.1 hnone
  have hblank : ∀ c ∈ cs, Text.isBlank c = false := fun c hc => Bool.eq_false_iff.2 fun hc' => hblank ⟨c, hc, hc'⟩
  cases h with
  | @intro year month day ys ms ds hyear hmonth hday =>
    simp only [List.forall_mem_append, List.forall_mem_cons] at hblank
    obtain ⟨hys, -, hms, -, hds⟩ := hblank
    obtain ⟨year, rfl, hyear, four⟩ := hyear.numeral hys fun c hc hc' =>
      hsign ⟨c, by rw [List.head?_append, hc]; rfl, hc'⟩
    obtain ⟨hmonth, two⟩ := hmonth.numeral hms
    obtain ⟨hday, two'⟩ := hday.numeral hds
    rw [utf8Len_hyphened hyear hmonth hday] at hbytes
    exact .intro hyear hmonth hday (by omega) (by omega) (by omega)

/-- **What is read that is no date with a time of day** is a date of ten bytes, loosely written. A documented date is
read, and the documented dates are all that is read as long as no accepted text has a blank or begins with a sign. -/
theorem bare_date_read_iff {s : String} (h : ofRfc3339? s.toList = none) :
    (∀ t, ofText? s = some t ↔
      s.utf8ByteSize = 10 ∧ ∃ date, LooselyWritten date s.toList ∧ date.isValid = true ∧ midnight date = t) ∧
    (∀ date, PlainlyWritten date s.toList → date.isValid = true → ofText? s = some (midnight date)) ∧
    ((∀ t, ofText? s = some t ↔ ∃ date, PlainlyWritten date s.toList ∧ date.isValid = true ∧ midnight date = t) ↔
      ((ofText? s).isSome = true → ¬ BlankOrSign s.toList)) := by
  have hread {t : Instant} := ofText?_eq_some_of_bare (t := t) h
  have hplain : ∀ date, PlainlyWritten date s.toList → date.isValid = true → ofText? s = some (midnight date) := by
    intro date hdate hvalid
    exact hread.2 ⟨String.utf8Len_toList s ▸ hdate.utf8Len, date, hdate.looselyWritten, hvalid, rfl⟩
  refine ⟨fun t => hread, hplain, fun hdocumented hsome => ?_, fun hnone t => ⟨fun ht => ?_, ?_⟩⟩
  · obtain ⟨t, ht⟩ := Option.isSome_iff_exists.1 hsome
    obtain ⟨date, hdate, -, -⟩ := (hdocumented t).1 ht
    exact hdate.not_blankOrSign
  · obtain ⟨hbytes, date, hdate, hvalid, hmidnight⟩ := hread.1 ht
    have hnone := hnone (Option.isSome_iff_exists.2 ⟨t, ht⟩)
    exact ⟨date, plainlyWritten_of_looselyWritten hdate (String.utf8Len_toList s ▸ hbytes) hnone, hvalid, hmidnight⟩
  · rintro ⟨date, hdate, hvalid, rfl⟩
    exact hplain date hdate hvalid

/-- blanks stand in for the missing digits of a month and a day -/
theorem blanks_fill_date : ofRfc3339? "2026- 1- 1".toList = none ∧
    (∀ t, ofText? "2026- 1- 1" = some t ↔ "2026- 1- 1".utf8ByteSize = 10 ∧
      ∃ date, LooselyWritten date "2026- 1- 1".toList ∧ date.isValid = true ∧ midnight date = t) ∧
    ofText? "2026- 1- 1" = some (midnight ⟨2026, 1, 1⟩) :=
  have h : ofRfc3339? "2026- 1- 1".toList = none := by decide
  ⟨h, (bare_date_read_iff h).1, by decide⟩

/-- a year with a sign makes ten bytes with a month of one digit -/
theorem signed_year_accepted : ofRfc3339? "+2026-1-01".toList = none ∧
    ofText? "+2026-1-01" = some (midnight ⟨2026, 1, 1⟩) ∧
    ¬ ∃ date, PlainlyWritten date "+2026-1-01".toList ∧ date.isValid = true ∧
      midnight date = midnight ⟨2026, 1, 1⟩ := by
  refine ⟨by decide, by decide, ?_⟩
  rintro ⟨date, hdate, -, -⟩
  exact hdate.not_blankOrSign (.inr ⟨'+', by decide, .inl rfl⟩)

end Proviso.Instant
