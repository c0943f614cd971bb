/-
The catalogue keeps to what it states: every worked example comes out as it says.

No constraint but that of `now` calls `now`, so the clock makes no difference to the others, and one evaluation settles
each of them (`Example.holds_of_settled`). The example of `now` asks whether the start of 2000 is past. It comes out from
the next millisecond on, as long as the year has four digits (`now_examples_hold`).
-/
import Mathlib.Tactic.FinCases
import Proviso.Builtin.Catalogue
import Proviso.Proofs.Eval.Now
import Proviso.Proofs.Eval.Settings

namespace Proviso

open Proviso.Expr

/-- the start of 2000, the deadline in the example of `now` -/
def deadline : Instant := .midnight ⟨2000, 1, 1⟩

/-! ## One example -/

namespace Example

/-- at this reading of the clock, the record meets the constraint or does not, as the example states -/
def Holds (clock : Instant) (ex : Example) : Prop := meets {} clock ex.context ex.expression = .ok ex.expected

/-- the example comes out at one reading of the clock, and its constraint does not call `now`, so any reading would do -/
def settled : Example → Bool
  | ⟨_, context, expression, expected⟩ =>
    (Expr.ofText? expression).toOption.any fun e =>
      !decide (e.Contains IsNow) && e.holds { context, options := {}, clock := deadline } == expected

/-- one evaluation settles an example for every reading of the clock -/
theorem holds_of_settled {ex : Example} (h : ex.settled = true) (clock : Instant) : ex.Holds clock := by
  obtain ⟨_, context, expression, expected⟩ := ex
  rw [Holds, meets]
  rw [settled] at h
  cases htext : Expr.ofText? expression with
  | error fault =>
    rw [htext] at h
    cases h
  | ok e =>
    simp only [htext, Except.toOption, Option.any_some, Bool.and_eq_true, Bool.not_eq_true', decide_eq_false_iff_not,
      beq_iff_eq] at h
    obtain ⟨htimeless, hholds⟩ := h
    have hclock := eval_of_clock htimeless { context, options := {}, clock := deadline } clock
    rw [← hholds]
    exact congrArg (fun operand : Operand => Except.ok operand.isTruthy) hclock

end Example

/-- every example but that of `now` is settled: those on amounts, shapes, times, trees and governance in turn -/
theorem examples_settled {entry : Entry} (hentry : entry ∈ catalogue) :
    entry.builtin ≠ .now → ∀ ex ∈ entry.examples, ex.settled = true := by
  simp only [catalogue, List.mem_append] at hentry
  rcases hentry with (((hamount | hshape) | htime) | htree) | hgovernance
  -- entry by entry, so that no evaluation is of more than the few examples of one builtin
  · fin_cases hamount <;> decide +kernel
  · fin_cases hshape <;> decide +kernel
  · fin_cases htime <;> decide +kernel
  · fin_cases htree <;> decide +kernel
  · fin_cases hgovernance <;> decide +kernel

/-! ## The example of `now` -/

/-- the clock shows a time after the deadline, to the millisecond, in a year of four digits -/
structure PastDeadline (clock : Instant) : Prop where
  leapEndsMinute : clock.LeapEndsMinute
  fourDigitYear : (Date.ofDayNumber clock.day).FourDigitYear
  past : deadline.lt clock.wholeMillis = true

example : PastDeadline (.midnight ⟨2026, 6, 1⟩) := ⟨nofun, ⟨by decide, by decide⟩, by decide⟩

theorem PastDeadline.meets {clock : Instant} (h : PastDeadline clock) :
    meets {} clock (.object [("deadline", .string "2000-01-01T00:00:00Z")]) "is_after(now(), deadline)" = .ok true := by
  let e : Expr := call .isAfter [now, field ⟨"deadline", []⟩]
  let env : Env := { context := .object [("deadline", .string "2000-01-01T00:00:00Z")], options := {}, clock }
  have htext : Expr.ofText? "is_after(now(), deadline)" = .ok e := by decide +kernel
  have hnow : Denotes env now clock.wholeMillis := by
    rw [Denotes, eval_now_of_none rfl, Verdict.instant?_string]
    exact Instant.ofText?_text h.fourDigitYear h.leapEndsMinute
  have hdeadline : Denotes env (field ⟨"deadline", []⟩) deadline := by
    change Instant.ofText? "2000-01-01T00:00:00Z" = _
    decide +kernel
  have heval : e.eval env = .bool true := by rw [isAfter_of_denotes hnow hdeadline, h.past]
  rw [Proviso.meets, htext]
  exact congrArg (fun operand : Operand => Except.ok operand.isTruthy) heval

/-- the example of `now` comes out once its deadline is past -/
theorem now_examples_hold {clock : Instant} (h : PastDeadline clock) {entry : Entry} (hentry : entry ∈ catalogue)
    (hnow : entry.builtin = .now) : ∀ ex ∈ entry.examples, ex.Holds clock := by
  have hentries : catalogue.filter (·.builtin = .now) = [Catalogue.times.getLast (by decide)] := rfl
  have hlast : entry ∈ catalogue.filter (·.builtin = .now) := List.mem_filter.2 ⟨hentry, decide_eq_true hnow⟩
  rw [hentries, List.mem_singleton] at hlast
  subst hlast
  intro ex hex
  obtain rfl := List.mem_singleton.1 hex
  exact h.meets

/-! ## The whole catalogue -/

/-- **Every worked example comes out.** At every reading of the clock the record of an example meets its constraint or
does not, as the example states; only that of `now` asks for a time past its deadline. -/
theorem examples_hold (clock : Instant) {entry : Entry} (hentry : entry ∈ catalogue)
    (htime : entry.builtin = .now → PastDeadline clock) : ∀ ex ∈ entry.examples, ex.Holds clock := by
  by_cases hnow : entry.builtin = .now
  · exact now_examples_hold (htime hnow) hentry hnow
  · intro ex hex
    exact ex.holds_of_settled (examples_settled hentry hnow ex hex) clock

end Proviso
