/-
The instant of the evaluation as an argument of the builtins on time.

An expression whose operand is the text of an instant is that instant to every builtin on time, in every place where
these take a timestamp (`Denotes.readAs`), and an expression whose operand is no such text makes all of them false
(`unread_of_none`). With a timestamp in the options, `now()` is of the first kind exactly when the year of the instant in
universal time has four digits (`now_read_iff`). Otherwise the offset of the timestamp has carried it over an end of these
years, by a day at most, and the year is printed with a sign, which no timestamp has.
-/
import Proviso.Eval
import Proviso.Proofs.Instant.Printing

namespace Proviso

theorem Verdict.instant?_string (s : String) : instant? (.string s) = Instant.ofText? s := rfl

namespace Expr

/-! ## Timestamps as arguments -/

/-- the instant of the evaluation -/
def now : Expr := call .now []

/-- the operand of the expression is a timestamp, and of this instant -/
def Denotes (env : Env) (e : Expr) (t : Instant) : Prop := Verdict.instant? (e.eval env) = some t

/-- the operand of the expression is an age that can be allowed: a number of seconds that is not negative -/
def Allows (env : Env) (e : Expr) (limit : Double) : Prop :=
  (e.eval env).toDouble? = some limit ∧ (Double.zero false).le limit = true

/-- Every builtin on time takes the expression for the instant `t`, wherever a timestamp is asked for. -/
structure ReadAs (env : Env) (e : Expr) (t : Instant) : Prop where
  denotes : Denotes env e t
  isAfter : ∀ {x i}, Denotes env x i →
    (call .isAfter [e, x]).eval env = .bool (i.lt t) ∧ (call .isAfter [x, e]).eval env = .bool (t.lt i)
  isBefore : ∀ {x i}, Denotes env x i →
    (call .isBefore [e, x]).eval env = .bool (t.lt i) ∧ (call .isBefore [x, e]).eval env = .bool (i.lt t)
  isBetween : ∀ {x y i j}, Denotes env x i → Denotes env y j →
    (call .isBetween [e, x, y]).eval env = .bool (i.le t && t.le j) ∧
    (call .isBetween [x, e, y]).eval env = .bool (t.le i && i.le j) ∧
    (call .isBetween [x, y, e]).eval env = .bool (j.le i && i.le t)
  isStale : ∀ {x n i limit}, Denotes env x i → Allows env n limit →
    (call .isStale [e, n, x]).eval env = .bool (limit.lt (i.secondsSince t)) ∧
    (call .isStale [x, n, e]).eval env = .bool (limit.lt (t.secondsSince i))
  isWithin : ∀ {x n i limit}, Denotes env x i → Allows env n limit →
    (call .isWithin [e, n, x]).eval env = .bool ((i.secondsSince t).le limit) ∧
    (call .isWithin [x, n, e]).eval env = .bool ((t.secondsSince i).le limit)

/-- No builtin on time takes the expression for a timestamp, and all of them are false with it. -/
structure Unread (env : Env) (e : Expr) : Prop where
  denotes : ∀ t, ¬ Denotes env e t
  isAfter : ∀ x, (call .isAfter [e, x]).eval env = .no ∧ (call .isAfter [x, e]).eval env = .no
  isBefore : ∀ x, (call .isBefore [e, x]).eval env = .no ∧ (call .isBefore [x, e]).eval env = .no
  isBetween : ∀ x y, (call .isBetween [e, x, y]).eval env = .no ∧ (call .isBetween [x, e, y]).eval env = .no ∧
    (call .isBetween [x, y, e]).eval env = .no
  isStale : ∀ x n, (call .isStale [e, n, x]).eval env = .no ∧ (call .isStale [x, n, e]).eval env = .no
  isWithin : ∀ x n, (call .isWithin [e, n, x]).eval env = .no ∧ (call .isWithin [x, n, e]).eval env = .no

section

variable {env : Env} {a b c e : Expr} {i j k t : Instant} {limit : Double}

theorem isAfter_of_denotes (ha : Denotes env a i) (hb : Denotes env b j) :
    (call .isAfter [a, b]).eval env = .bool (j.lt i) := by
  change Verdict.isAfter (a.eval env) (b.eval env) = _
  rw [Verdict.isAfter, ha, hb]

theorem isBefore_of_denotes (ha : Denotes env a i) (hb : Denotes env b j) :
    (call .isBefore [a, b]).eval env = .bool (i.lt j) := by
  change Verdict.isBefore (a.eval env) (b.eval env) = _
  rw [Verdict.isBefore, ha, hb]

theorem isBetween_of_denotes (ha : Denotes env a i) (hb : Denotes env b j) (hc : Denotes env c k) :
    (call .isBetween [a, b, c]).eval env = .bool (j.le i && i.le k) := by
  change Verdict.isBetween (a.eval env) (b.eval env) (c.eval env) = _
  rw [Verdict.isBetween, ha, hb, hc]

theorem age?_of_denotes (ha : Denotes env a i) (hb : Allows env b limit) (hc : Denotes env c k) :
    Verdict.age? (a.eval env) (b.eval env) (c.eval env) = some (k.secondsSince i, limit) := by
  rw [Verdict.age?, ha, hc, hb.1]
  exact if_pos hb.2

theorem isStale_of_denotes (ha : Denotes env a i) (hb : Allows env b limit) (hc : Denotes env c k) :
    (call .isStale [a, b, c]).eval env = .bool (limit.lt (k.secondsSince i)) := by
  change Verdict.isStale (a.eval env) (b.eval env) (c.eval env) = _
  rw [Verdict.isStale, age?_of_denotes ha hb hc]

theorem isWithin_of_denotes (ha : Denotes env a i) (hb : Allows env b limit) (hc : Denotes env c k) :
    (call .isWithin [a, b, c]).eval env = .bool ((k.secondsSince i).le limit) := by
  change Verdict.isWithin (a.eval env) (b.eval env) (c.eval env) = _
  rw [Verdict.isWithin, age?_of_denotes ha hb hc]

/-- an expression that denotes an instant is taken for it -/
theorem Denotes.readAs (h : Denotes env e t) : ReadAs env e t where
  denotes := h
  isAfter hx := ⟨isAfter_of_denotes h hx, isAfter_of_denotes hx h⟩
  isBefore hx := ⟨isBefore_of_denotes h hx, isBefore_of_denotes hx h⟩
  isBetween hx hy := ⟨isBetween_of_denotes h hx hy, isBetween_of_denotes hx h hy, isBetween_of_denotes hx hy h⟩
  isStale hx hn := ⟨isStale_of_denotes h hn hx, isStale_of_denotes hx hn h⟩
  isWithin hx hn := ⟨isWithin_of_denotes h hn hx, isWithin_of_denotes hx hn h⟩

theorem age?_of_none (h : Verdict.instant? (e.eval env) = none) (x n : Operand) :
    Verdict.age? (e.eval env) n x = none ∧ Verdict.age? x n (e.eval env) = none := by
  rw [Verdict.age?, Verdict.age?, h]
  constructor
  · rfl
  · cases Verdict.instant? x <;> rfl

/-- an expression whose operand is no timestamp is taken for none -/
theorem unread_of_none (h : Verdict.instant? (e.eval env) = none) : Unread env e where
  denotes t ht := absurd (h.symm.trans ht) (by simp)
  isAfter x := by
    change Verdict.isAfter (e.eval env) (x.eval env) = _ ∧ Verdict.isAfter (x.eval env) (e.eval env) = _
    rw [Verdict.isAfter, Verdict.isAfter, h]
    constructor
    · rfl
    · cases Verdict.instant? (x.eval env) <;> rfl
  isBefore x := by
    change Verdict.isBefore (e.eval env) (x.eval env) = _ ∧ Verdict.isBefore (x.eval env) (e.eval env) = _
    rw [Verdict.isBefore, Verdict.isBefore, h]
    constructor
    · rfl
    · cases Verdict.instant? (x.eval env) <;> rfl
  isBetween x y := by
    change Verdict.isBetween (e.eval env) (x.eval env) (y.eval env) = _ ∧
      Verdict.isBetween (x.eval env) (e.eval env) (y.eval env) = _ ∧
      Verdict.isBetween (x.eval env) (y.eval env) (e.eval env) = _
    rw [Verdict.isBetween, Verdict.isBetween, Verdict.isBetween, h]
    refine ⟨rfl, ?_, ?_⟩
    · cases Verdict.instant? (x.eval env) <;> rfl
    · cases Verdict.instant? (x.eval env) <;> cases Verdict.instant? (y.eval env) <;> rfl
  isStale x n := by
    change Verdict.isStale (e.eval env) (n.eval env) (x.eval env) = _ ∧
      Verdict.isStale (x.eval env) (n.eval env) (e.eval env) = _
    obtain ⟨hfirst, hlast⟩ := age?_of_none h (x.eval env) (n.eval env)
    rw [Verdict.isStale, Verdict.isStale, hfirst, hlast]
    exact ⟨rfl, rfl⟩
  isWithin x n := by
    change Verdict.isWithin (e.eval env) (n.eval env) (x.eval env) = _ ∧
      Verdict.isWithin (x.eval env) (n.eval env) (e.eval env) = _
    obtain ⟨hfirst, hlast⟩ := age?_of_none h (x.eval env) (n.eval env)
    rw [Verdict.isWithin, Verdict.isWithin, hfirst, hlast]
    exact ⟨rfl, rfl⟩

end

/-! ## The instant of the evaluation -/

/-- with no timestamp in the options, `now()` is the text of what the clock shows -/
theorem eval_now_of_none {env : Env} (h : env.options.evaluationTimestamp = none) :
    now.eval env = .string env.clock.text := by
  change Verdict.now env.options env.clock = _
  rw [Verdict.now, Verdict.evaluationInstant, h, Option.bind_none, Option.getD_none]

section

variable {env : Env} {s : String} {t : Instant} (hs : env.options.evaluationTimestamp = some s)
  (ht : Instant.ofRfc3339? s.toList = some t)

include hs ht

theorem eval_now : now.eval env = .string t.text := by
  change Verdict.now env.options env.clock = _
  rw [Verdict.now, Verdict.evaluationInstant, hs, Option.bind_some, ht, Option.getD_some]

theorem instant?_now : Verdict.instant? (now.eval env) = Instant.ofText? t.text := by
  rw [eval_now hs ht, Verdict.instant?_string]

/-- **`now()` is read back exactly when its year has four digits.** With a timestamp in the options, it is the text of
the instant `t` of that timestamp. When the year of `t` in universal time has four digits, every builtin on time takes it
for `t` in whole milliseconds; otherwise they all take it for no timestamp, and `t` is on the day before or on the day
after those years. -/
theorem now_read_iff :
    now.eval env = .string t.text ∧
    (ReadAs env now t.wholeMillis ↔ (Date.ofDayNumber t.day).FourDigitYear) ∧
    (¬ (Date.ofDayNumber t.day).FourDigitYear → Unread env now ∧
      (Date.ofDayNumber t.day = ⟨-1, 12, 31⟩ ∨ Date.ofDayNumber t.day = ⟨10000, 1, 1⟩)) := by
  have hunread (hyear : ¬ (Date.ofDayNumber t.day).FourDigitYear) : Unread env now :=
    unread_of_none ((instant?_now hs ht).trans (Instant.ofText?_text_eq_none hyear))
  refine ⟨eval_now hs ht, ⟨fun hread => ?_, fun hyear => ?_⟩, fun hyear => ⟨hunread hyear, ?_⟩⟩
  · by_contra hyear
    exact (hunread hyear).denotes _ hread.denotes
  · have htext := Instant.ofText?_text hyear (Instant.leapEndsMinute_of_ofRfc3339? ht)
    exact Denotes.readAs ((instant?_now hs ht).trans htext)
  · obtain ⟨date, hour, minute, second, nano, offset, hlocal, rfl⟩ := Instant.exists_ofLocal_of_ofRfc3339? ht
    exact hlocal.ofDayNumber_of_not_fourDigitYear hyear

end

/-- a leap second written with an offset and seven digits of its fraction is read back to the millisecond -/
theorem now_in_leap_second :
    let s := "2016-12-31T18:59:60.7519999-05:00"
    let env : Env := { context := .object [], options := { evaluationTimestamp := some s }, clock := ⟨0, 0, 0⟩ }
    now.eval env = .string "2016-12-31T23:59:60.751Z" ∧ ReadAs env now ⟨736634, 86399, 1751000000⟩ := by
  intro s env
  have hs : env.options.evaluationTimestamp = some s := rfl
  have ht : Instant.ofRfc3339? s.toList = some ⟨736634, 86399, 1751999900⟩ := by decide +kernel
  have htext : (⟨736634, 86399, 1751999900⟩ : Instant).text = "2016-12-31T23:59:60.751Z" := by decide +kernel
  have hmillis : (⟨736634, 86399, 1751999900⟩ : Instant).wholeMillis = ⟨736634, 86399, 1751000000⟩ := by decide +kernel
  obtain ⟨heval, hread, -⟩ := now_read_iff hs ht
  rw [htext] at heval
  rw [hmillis] at hread
  exact ⟨heval, hread.2 ⟨by decide +kernel, by decide +kernel⟩⟩

/-- **A second before the year 10000 at an offset of a minute, `now()` is no timestamp.** It is after an instant of 2026,
and `is_after` says so of the timestamp itself, but not of `now()`. -/
theorem now_past_four_digits :
    let s := "9999-12-31T23:59:59-00:01"
    let env : Env := {
      context := .object [("d", .string "2026-03-01T12:00:00Z")], options := { evaluationTimestamp := some s },
      clock := ⟨0, 0, 0⟩ }
    Instant.ofRfc3339? s.toList = some ⟨3652365, 59, 0⟩ ∧
      now.eval env = .string "+10000-01-01T00:00:59.000Z" ∧ (∀ t, ¬ Denotes env now t) ∧
      (call .isAfter [now, .field ⟨"d", []⟩]).eval env = .bool false ∧
      (call .isAfter [.literal (.string s), .field ⟨"d", []⟩]).eval env = .bool true := by
  intro s env
  have hs : env.options.evaluationTimestamp = some s := rfl
  have ht : Instant.ofRfc3339? s.toList = some ⟨3652365, 59, 0⟩ := by decide +kernel
  have htext : (⟨3652365, 59, 0⟩ : Instant).text = "+10000-01-01T00:00:59.000Z" := by decide +kernel
  have heval : now.eval env = .string "+10000-01-01T00:00:59.000Z" := by rw [eval_now hs ht, htext]
  have hnone : Verdict.instant? (now.eval env) = none := by
    rw [heval, Verdict.instant?_string]
    decide +kernel
  have hunread := unread_of_none hnone
  have hliteral : Denotes env (.literal (.string s)) ⟨3652365, 59, 0⟩ := by
    change Instant.ofText? s = _
    rw [Instant.ofText?, ht]
  have hd : Denotes env (.field ⟨"d", []⟩) ⟨739981, 43200, 0⟩ := by
    change Instant.ofText? "2026-03-01T12:00:00Z" = _
    decide +kernel
  refine ⟨ht, heval, hunread.denotes, (hunread.isAfter _).1, ?_⟩
  rw [isAfter_of_denotes hliteral hd]
  rfl

end Expr

end Proviso
