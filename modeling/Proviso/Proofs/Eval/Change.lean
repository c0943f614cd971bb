/-
A change is an inequality with the earlier value.

`changed` holds the value of a field now against its earlier value, and `p != previous(p)` the earlier one against the value
now, by way of the operator. Where the record carries its earlier state, `previous` gives what `changed` looks at
(`before_of_snapshot`), and by the symmetry of equality the two agree, whatever is missing and whatever names are bound.
Where it carries none, nothing has changed and the difference is zero (`change_is_inequality_with_previous`).
-/
import Proviso.Eval
import Proviso.Proofs.Operand.Equality

namespace Proviso

/-- the record carries its earlier state, as an object -/
def Json.HasSnapshot (v : Json) : Prop := ∃ fields, v.get? previousKey = some (.object fields)

theorem Json.previous?_eq_none {v : Json} (h : ¬ v.HasSnapshot) : v.previous? = none := by
  rw [previous?]
  split
  · next fields hfields => exact absurd ⟨fields, hfields⟩ h
  · rfl

theorem Env.before_of_snapshot {env : Env} (h : env.context.HasSnapshot) (p : Path) :
    ∃ old, env.before p = some old := by
  obtain ⟨fields, hfields⟩ := h
  exact ⟨(Json.object fields).resolve p, by rw [before, Json.previous?, hfields, Option.map_some]⟩

theorem Env.before_of_no_snapshot {env : Env} (h : ¬ env.context.HasSnapshot) (p : Path) : env.before p = none := by
  rw [before, Json.previous?_eq_none h, Option.map_none]

namespace Expr

theorem eval_changed (env : Env) (p : Path) :
    (call .changed [field p]).eval env = Verdict.changed (env.before p) (env.resolve p) := rfl

theorem eval_previous (env : Env) (p : Path) :
    (call .previous [field p]).eval env = Verdict.previous (env.before p) := rfl

theorem eval_delta (env : Env) (p : Path) :
    (call .delta [field p]).eval env = Verdict.delta (env.before p) (env.resolve p) := rfl

/-- **A change is an inequality with the earlier value.** In a record with an earlier state, `changed(p)` is what
`p != previous(p)` is, for every path and under all bound names, as long as the options tell what is absent from null. In a
record without one, `changed(p)` is false and `delta(p)` the exact integer zero under all options. -/
theorem change_is_inequality_with_previous (env : Env) (p : Path) :
    (env.context.HasSnapshot → env.options.absentEqualsNull = false →
      (call .changed [field p]).eval env = (binary .ne (field p) (call .previous [field p])).eval env) ∧
    (¬ env.context.HasSnapshot →
      (call .changed [field p]).eval env = .bool false ∧ (call .delta [field p]).eval env = .int 0) := by
  refine ⟨fun hsnapshot hstrict => ?_, fun hnone => ?_⟩
  · obtain ⟨old, hold⟩ := Env.before_of_snapshot hsnapshot p
    let now := Operand.ofOption (env.resolve p)
    let earlier := Operand.ofOption old
    calc (call .changed [field p]).eval env
      _ = .bool (!earlier.equals false now) := by rw [eval_changed, hold, Verdict.changed]
      _ = .bool (!now.equals false earlier) := by rw [Operand.equals_comm]
      _ = .bool (BinaryOp.ne.holds env.options now earlier) := by rw [BinaryOp.holds, hstrict]
      _ = (binary .ne (field p) (call .previous [field p])).eval env := by
        rw [eval, eval, eval_previous, hold, Verdict.previous, Option.join_some]
  · have hbefore := Env.before_of_no_snapshot hnone p
    refine ⟨?_, ?_⟩
    · rw [eval_changed, hbefore, Verdict.changed]
    · rw [eval_delta, hbefore, Verdict.delta]

/-- a field of a bound item that is missing now and was null earlier has changed; a text is no earlier state -/
theorem change_of_bound_item :
    let price : Path := ⟨"item", [.key "price"]⟩
    let earlier : Json := .object [("item", .object [("price", .null)])]
    let env : Env := {
      context := .object [("item", .object [("price", .null)]), (previousKey, earlier)],
      options := {}, clock := ⟨0, 0, 0⟩, bindings := [("item", .object [])] }
    let stateless : Env := { env with context := .object [(previousKey, .string "earlier")] }
    (env.context.HasSnapshot ∧ (binary .ne (field price) (call .previous [field price])).eval env = .bool true) ∧
      (¬ stateless.context.HasSnapshot ∧ (call .delta [field price]).eval stateless = .int 0) := by
  intro price earlier env stateless
  have hsnapshot : env.context.HasSnapshot := ⟨_, rfl⟩
  have hchanged : (call .changed [field price]).eval env = .bool true := rfl
  have hnone : ¬ stateless.context.HasSnapshot := by
    rintro ⟨fields, hfields⟩
    cases hfields
  refine ⟨⟨hsnapshot, ?_⟩, hnone, ?_⟩
  · rw [← hchanged]
    exact ((change_is_inequality_with_previous env price).1 hsnapshot rfl).symm
  · exact ((change_is_inequality_with_previous stateless price).2 hnone).2

end Expr

end Proviso
