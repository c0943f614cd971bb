/-
The store never shows in an answer.

A store is faithful when each expression in it is what its text denotes. The empty store is, and every request keeps it
so, whether the text is held already, is malformed, or is taken in after older ones have gone (`step_faithful`). From a
faithful store a request is answered as if there were none (`step_answer`), and so is every request of a run
(`answers_empty`): with any capacity, in any order, at any readings of the clock.
-/
import Proviso.Store

namespace Proviso

namespace Store

/-! ## Faithful stores -/

/-- every expression is held under a text that denotes it -/
def Faithful (entries : Std.HashMap String Expr) : Prop :=
  ∀ text e, entries[text]? = some e → Expr.ofText? text = .ok e

theorem faithful_empty : Faithful empty.entries := by
  intro text e h
  simp [empty] at h

theorem Faithful.erase {entries : Std.HashMap String Expr} (h : Faithful entries) (text : String) :
    Faithful (entries.erase text) := by
  intro other e he
  rw [Std.HashMap.getElem?_erase] at he
  split at he
  · simp at he
  · exact h other e he

theorem Faithful.insert {entries : Std.HashMap String Expr} (h : Faithful entries) {text : String} {e : Expr}
    (ht : Expr.ofText? text = .ok e) : Faithful (entries.insert text e) := by
  intro other e' he
  rw [Std.HashMap.getElem?_insert] at he
  split at he
  · next heq =>
    rw [← eq_of_beq heq, ht]
    exact congrArg Except.ok (Option.some.inj he)
  · exact h other e' he

/-- letting the oldest expressions go leaves a faithful store faithful -/
theorem Faithful.makeRoom {entries : Std.HashMap String Expr} (h : Faithful entries) (capacity : Nat)
    (order : List String) : Faithful (makeRoom capacity entries order).store.entries := by
  induction order generalizing entries with
  | nil =>
    rw [Store.makeRoom]
    split
    · exact h
    · exact faithful_empty
  | cons oldest order ih =>
    rw [Store.makeRoom]
    split
    · exact h
    · exact ih (h.erase oldest)

/-! ## One request -/

/-- taking in what a text denotes gives it back and leaves the store faithful -/
theorem takeIn_faithful (capacity : Nat) (s : Store) (h : Faithful s.entries) {text : String} {e : Expr}
    (ht : Expr.ofText? text = .ok e) :
    (s.takeIn capacity text e).1.expr = .ok e ∧ Faithful (s.takeIn capacity text e).2.entries := by
  unfold takeIn
  split
  · exact ⟨rfl, h⟩
  · split
    · exact ⟨rfl, h⟩
    · exact ⟨rfl, (h.makeRoom capacity s.order).insert ht⟩

/-- reading through a faithful store gives what the text denotes, and leaves the store faithful -/
theorem read_faithful (capacity : Nat) (s : Store) (h : Faithful s.entries) (text : String) :
    (s.read capacity text).1.expr = Expr.ofText? text ∧ Faithful (s.read capacity text).2.entries := by
  unfold read
  split
  · next e he => exact ⟨(h text e he).symm, h⟩
  · split
    · next hr => exact ⟨hr.symm, h⟩
    · next e hr =>
      rw [hr]
      exact takeIn_faithful capacity s h hr

/-- the answer to a request without a store -/
def direct (options : Options) (clock : Instant) : Request → Answer
  | .compile text => .expr (Expr.ofText? text)
  | .evaluate context text => .verdict (meets options clock context text)

theorem answer_ofText? (options : Options) (clock : Instant) (r : Request) :
    r.answer options clock (Expr.ofText? r.text) = direct options clock r := by
  cases r with
  | compile text => rfl
  | evaluate context text =>
    simp only [Request.answer, Request.text, direct, meets]
    cases Expr.ofText? text <;> rfl

theorem step_answer (options : Options) (capacity : Nat) (clock : Instant) (s : Store) (h : Faithful s.entries)
    (r : Request) : (step options capacity clock s r).1 = direct options clock r := by
  rw [← answer_ofText?, ← (read_faithful capacity s h r.text).1]
  rfl

theorem step_faithful (options : Options) (capacity : Nat) (clock : Instant) (s : Store) (h : Faithful s.entries)
    (r : Request) : Faithful (step options capacity clock s r).2.2.entries :=
  (read_faithful capacity s h r.text).2

/-! ## Runs -/

/-- what requests are answered with, one after the other, each at its reading of the clock -/
def answers (options : Options) (capacity : Nat) (s : Store) : List (Instant × Request) → List Answer
  | [] => []
  | (clock, r) :: rs =>
    (step options capacity clock s r).1 :: answers options capacity (step options capacity clock s r).2.2 rs

theorem answers_faithful (options : Options) (capacity : Nat) (s : Store) (h : Faithful s.entries)
    (rs : List (Instant × Request)) :
    answers options capacity s rs = rs.map fun (clock, r) => direct options clock r := by
  induction rs generalizing s with
  | nil => rfl
  | cons request rs ih =>
    obtain ⟨clock, r⟩ := request
    rw [answers, List.map_cons, step_answer options capacity clock s h r,
      ih _ (step_faithful options capacity clock s h r)]

/-- **The store is invisible.** Whatever the options and the capacity, requests to a store that starts empty are
answered one by one as they are without a store, no matter what has been held, found or let go before. -/
theorem answers_empty (options : Options) (capacity : Nat) (rs : List (Instant × Request)) :
    answers options capacity empty rs = rs.map fun (clock, r) => direct options clock r :=
  answers_faithful options capacity empty faithful_empty rs

end Store

end Proviso
