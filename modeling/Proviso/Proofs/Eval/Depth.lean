/-
How deep evaluation goes.

`evalWithin n` evaluates as `eval` does, but gives up where the evaluation of subexpressions nests more than `n` calls
deep. It never gives up when `n` exceeds the height of the expression, whatever the record holds
(`evalWithin_eq_some`): evaluation goes as deep as the tree is high, however many elements a lambda is asked about.
-/
import Proviso.Eval
import Proviso.Proofs.Expr.Height
import Proviso.Proofs.Json.Fields

namespace Proviso

namespace Expr

/-- the operand of an expression, when no more than `n` evaluations have to wait for one another on the way to it -/
def evalWithin : Nat → Env → Expr → Option Operand
  | 0, _, _ => none
  | n + 1, env, e =>
    match e with
    | .literal l => some l.operand
    | .field p => some (.ofOption (env.resolve p))
    | .call f args => do
      let operands ← args.mapM (evalWithin n env)
      return f.apply env (args.head?.bind path?) operands
    | .array items => do
      let operands ← items.mapM (evalWithin n env)
      return .list operands
    | .not e => do
      let operand ← evalWithin n env e
      return .bool (!operand.isTruthy)
    | .binary op left right => do
      let a ← evalWithin n env left
      let b ← evalWithin n env right
      return .bool (op.holds env.options a b)
    | .length e => do
      let operand ← evalWithin n env e
      return .count operand.length
    | .every p param body =>
      match env.resolve p with
      | some (.array items) => do
        let operands ← items.mapM fun v => evalWithin n (env.bind param v) body
        return .bool (operands.all Operand.isTruthy)
      | _ => some (.bool false)

theorem mapM_eq_some_map {α β : Type} {f : α → Option β} {g : α → β} {xs : List α} (h : ∀ x ∈ xs, f x = some (g x)) :
    xs.mapM f = some (xs.map g) := by
  induction xs with
  | nil => rfl
  | cons x xs ih =>
    have hrest := ih fun y hy => h y (List.mem_cons_of_mem x hy)
    exact mapM_cons_eq_some.2 ⟨g x, xs.map g, h x List.mem_cons_self, hrest, rfl⟩

/-- **Evaluation goes no deeper than the expression is high.** -/
theorem evalWithin_eq_some {n : Nat} {env : Env} {e : Expr} (h : e.height < n) :
    evalWithin n env e = some (e.eval env) := by
  induction n generalizing env e with
  | zero => exact absurd h (Nat.not_lt_zero _)
  | succ n ih =>
    have hitems : ∀ es : List Expr, heightOver es ≤ n → es.mapM (evalWithin n env) = some (evalItems env es) := by
      intro es hes
      rw [evalItems_eq_map]
      exact mapM_eq_some_map fun e he => ih (heightOver_le_iff.1 hes e he)
    have hle := Nat.le_of_lt_succ h
    cases e with
    | literal l => rfl
    | field p => rfl
    | call f args =>
      rw [height] at hle
      simp only [evalWithin, hitems args hle, eval]
      rfl
    | array items =>
      rw [height] at hle
      simp only [evalWithin, hitems items hle, eval]
      rfl
    | not e =>
      rw [height] at hle
      simp only [evalWithin, ih hle, eval]
      rfl
    | binary op left right =>
      rw [height] at hle
      obtain ⟨hleft, hright⟩ := Nat.max_lt.1 hle
      simp only [evalWithin, ih hleft, ih hright, eval]
      rfl
    | length e =>
      rw [height] at hle
      simp only [evalWithin, ih hle, eval]
      rfl
    | every p param body =>
      rw [height] at hle
      have hbodies : ∀ items : List Json, items.mapM (fun v => evalWithin n (env.bind param v) body) =
          some (items.map fun v => body.eval (env.bind param v)) := fun items => mapM_eq_some_map fun v _ => ih hle
      rw [evalWithin, eval]
      cases env.resolve p with
      | none => rfl
      | some v =>
        cases v with
        | array items => simp [hbodies, List.all_map, Function.comp_def]
        | _ => rfl

end Expr

end Proviso
