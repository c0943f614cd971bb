/-
Which expressions the settings of an evaluation can be told from, and the clock.

An evaluation looks at its settings in two places only: the comparisons `==`, `!=` and `eq` ask whether what is absent
equals null, and `now` asks for the timestamp and, without one, for the clock (`BinaryOp.holds_congr`,
`Builtin.apply_of_settings`). The builtins that test values for equality themselves do so without the setting. So an
expression has one operand under all settings that agree on what it asks for (`eval_of_settings`), and one that asks for
neither has one operand under all of them. One that does not call `now` has one operand at all times (`eval_of_clock`).
-/
import Proviso.Eval

namespace Proviso

namespace Expr

/-! ## Parts of an expression -/

mutual

/-- the property holds of the expression or of a part of it -/
def Contains (here : Expr → Prop) : Expr → Prop
  | .literal l => here (.literal l)
  | .field p => here (.field p)
  | .call f args => here (.call f args) ∨ ContainsIn here args
  | .array items => here (.array items) ∨ ContainsIn here items
  | .not e => here (.not e) ∨ e.Contains here
  | .binary op left right => here (.binary op left right) ∨ left.Contains here ∨ right.Contains here
  | .length e => here (.length e) ∨ e.Contains here
  | .every p param body => here (.every p param body) ∨ body.Contains here

/-- the property holds of a part of one of the expressions -/
def ContainsIn (here : Expr → Prop) : List Expr → Prop
  | [] => False
  | e :: rest => e.Contains here ∨ ContainsIn here rest

end

mutual

instance decidableContains (here : Expr → Prop) [DecidablePred here] : (e : Expr) → Decidable (e.Contains here)
  | .literal l => inferInstanceAs (Decidable (here (.literal l)))
  | .field p => inferInstanceAs (Decidable (here (.field p)))
  | .call f args =>
    have := decidableContainsIn here args
    inferInstanceAs (Decidable (here (.call f args) ∨ ContainsIn here args))
  | .array items =>
    have := decidableContainsIn here items
    inferInstanceAs (Decidable (here (.array items) ∨ ContainsIn here items))
  | .not e =>
    have := decidableContains here e
    inferInstanceAs (Decidable (here (.not e) ∨ e.Contains here))
  | .binary op left right =>
    have := decidableContains here left
    have := decidableContains here right
    inferInstanceAs (Decidable (here (.binary op left right) ∨ left.Contains here ∨ right.Contains here))
  | .length e =>
    have := decidableContains here e
    inferInstanceAs (Decidable (here (.length e) ∨ e.Contains here))
  | .every p param body =>
    have := decidableContains here body
    inferInstanceAs (Decidable (here (.every p param body) ∨ body.Contains here))

instance decidableContainsIn (here : Expr → Prop) [DecidablePred here] :
    (es : List Expr) → Decidable (ContainsIn here es)
  | [] => inferInstanceAs (Decidable False)
  | e :: rest =>
    have := decidableContains here e
    have := decidableContainsIn here rest
    inferInstanceAs (Decidable (e.Contains here ∨ ContainsIn here rest))

end

/-- the expression tests two operands for equality at its root -/
def IsEquality : Expr → Prop
  | .binary op _ _ => op = .eq ∨ op = .ne
  | .call f _ => f = .eq
  | _ => False

/-- the expression is a call of `now` -/
def IsNow : Expr → Prop
  | .call f _ => f = .now
  | _ => False

instance : DecidablePred IsNow
  | .call f _ => inferInstanceAs (Decidable (f = .now))
  | .literal _ | .field _ | .array _ | .not _ | .binary .. | .length _ | .every .. => inferInstanceAs (Decidable False)

end Expr

/-! ## Settings that agree -/

/-- The settings agree on whether absent equals null when `equates`; and when `dated`, they agree on the timestamp, and
the clocks show the same. -/
structure Settings.Agree (equates dated : Prop) (o o' : Options) (clock clock' : Instant) : Prop where
  absentEqualsNull : equates → o.absentEqualsNull = o'.absentEqualsNull
  evaluationTimestamp : dated → o.evaluationTimestamp = o'.evaluationTimestamp
  clock : dated → clock = clock'

variable {equates equates' dated dated' : Prop} {o o' : Options} {clock clock' : Instant}

theorem Settings.Agree.mono (h : Settings.Agree equates dated o o' clock clock') (he : equates' → equates)
    (hd : dated' → dated) : Settings.Agree equates' dated' o o' clock clock' :=
  ⟨fun e => h.absentEqualsNull (he e), fun d => h.evaluationTimestamp (hd d), fun d => h.clock (hd d)⟩

/-- only the two equalities ask for a setting -/
theorem BinaryOp.holds_congr {op : BinaryOp} (h : op = .eq ∨ op = .ne → o.absentEqualsNull = o'.absentEqualsNull)
    (a b : Operand) : op.holds o a b = op.holds o' a b := by
  cases op with
  | eq => rw [holds, holds, h (.inl rfl)]
  | ne => rw [holds, holds, h (.inr rfl)]
  | _ => rfl

/-- only `eq` and `now` ask for a setting, and only `now` for the clock -/
theorem Builtin.apply_of_settings {f : Builtin} (h : Settings.Agree (f = .eq) (f = .now) o o' clock clock') (env : Env)
    (path : Option Path) (args : List Operand) :
    f.apply { env with options := o, clock := clock } path args =
      f.apply { env with options := o', clock := clock' } path args := by
  cases f with
  | eq => simp only [apply, h.absentEqualsNull rfl]
  | now => simp only [apply, Verdict.now, Verdict.evaluationInstant, h.evaluationTimestamp rfl, h.clock rfl]
  | _ => rfl

namespace Expr

mutual

/-- **The operand depends on the settings and the clock only where the expression asks for them.** -/
theorem eval_of_settings (e : Expr) (env : Env)
    (h : Settings.Agree (e.Contains IsEquality) (e.Contains IsNow) o o' clock clock') :
    e.eval { env with options := o, clock := clock } = e.eval { env with options := o', clock := clock' } := by
  cases e with
  | literal l => rfl
  | field p => rfl
  | call f args =>
    have hargs := evalItems_of_settings args env (h.mono .inr .inr)
    simp only [eval, hargs]
    exact Builtin.apply_of_settings (h.mono (fun hf => .inl hf) fun hf => .inl hf) env _ _
  | array items => simp only [eval, evalItems_of_settings items env (h.mono .inr .inr)]
  | not e => simp only [eval, eval_of_settings e env (h.mono .inr .inr)]
  | binary op left right =>
    have hleft := eval_of_settings left env (h.mono (fun hl => .inr (.inl hl)) fun hl => .inr (.inl hl))
    have hright := eval_of_settings right env (h.mono (fun hr => .inr (.inr hr)) fun hr => .inr (.inr hr))
    simp only [eval, hleft, hright, BinaryOp.holds_congr fun hop => h.absentEqualsNull (.inl hop)]
  | length e => simp only [eval, eval_of_settings e env (h.mono .inr .inr)]
  | every p param body =>
    -- a name is bound in the same way under all settings, and so is the path resolved
    have hbody : ∀ v, body.eval (Env.bind { env with options := o, clock := clock } param v) =
        body.eval (Env.bind { env with options := o', clock := clock' } param v) := fun v =>
      eval_of_settings body (env.bind param v) (h.mono .inr .inr)
    simp only [eval, hbody]
    rfl

theorem evalItems_of_settings (es : List Expr) (env : Env)
    (h : Settings.Agree (ContainsIn IsEquality es) (ContainsIn IsNow es) o o' clock clock') :
    evalItems { env with options := o, clock := clock } es = evalItems { env with options := o', clock := clock' } es := by
  cases es with
  | nil => rfl
  | cons e rest =>
    have he := eval_of_settings e env (h.mono .inl .inl)
    have hrest := evalItems_of_settings rest env (h.mono .inr .inr)
    simp only [evalItems, he, hrest]

end

/-- an expression with no call of `now` has one operand at every reading of the clock -/
theorem eval_of_clock {e : Expr} (h : ¬ e.Contains IsNow) (env : Env) (clock : Instant) :
    e.eval { env with clock } = e.eval env :=
  e.eval_of_settings env ⟨fun _ => rfl, fun _ => rfl, fun hnow => absurd hnow h⟩

/-- **The settings interfere only where the expression asks for them.** In every record, with any names bound and at any
time of the clock, an expression with no `==`, no `!=` and no call of `eq` has one operand under all settings with the
same timestamp, and an expression with no call of `now` has one operand under all settings that treat what is absent
alike. -/
theorem settings_interfere_where_asked (context : Json) (clock : Instant) (bindings : Record) (e : Expr) :
    (¬ e.Contains IsEquality → ∀ o o' : Options, o.evaluationTimestamp = o'.evaluationTimestamp →
      e.eval { context, options := o, clock, bindings } = e.eval { context, options := o', clock, bindings }) ∧
    (¬ e.Contains IsNow → ∀ o o' : Options, o.absentEqualsNull = o'.absentEqualsNull →
      e.eval { context, options := o, clock, bindings } = e.eval { context, options := o', clock, bindings }) := by
  constructor
  · intro hnone o o' htimestamp
    exact e.eval_of_settings { context, options := o, clock, bindings }
      ⟨fun he => absurd he hnone, fun _ => htimestamp, fun _ => rfl⟩
  · intro hnone o o' habsent
    exact e.eval_of_settings { context, options := o, clock, bindings }
      ⟨fun _ => habsent, fun hd => absurd hd hnone, fun _ => rfl⟩

/-- `changed` tells a missing field from null even where `==` takes the two for equal, and a timestamp makes no difference
to `==` -/
theorem changed_to_null_under_settings :
    let context : Json := .object [("limit", .null), (previousKey, .object [])]
    let limit : Expr := .call .changed [.field ⟨"limit", []⟩]
    let same : Expr := .binary .eq (.field ⟨"limit", []⟩) (.call .previous [.field ⟨"limit", []⟩])
    let loose : Options := { absentEqualsNull := true }
    ¬ limit.Contains IsEquality ∧ ¬ same.Contains IsNow ∧
      limit.eval { context, options := loose, clock := ⟨0, 0, 0⟩ } = .bool true ∧
      same.eval { context, options := loose.withEvaluationTimestamp "2024-02-29", clock := ⟨0, 0, 0⟩ } = .bool true := by
  intro context limit same loose
  have hlimit : ¬ limit.Contains IsEquality := by simp [limit, Contains, ContainsIn, IsEquality]
  have hsame : ¬ same.Contains IsNow := by simp [same, Contains, ContainsIn, IsNow]
  have hstrict : limit.eval { context, options := {}, clock := ⟨0, 0, 0⟩ } = .bool true := rfl
  have hloose : same.eval { context, options := loose, clock := ⟨0, 0, 0⟩ } = .bool true := rfl
  refine ⟨hlimit, hsame, ?_, ?_⟩
  · rw [← hstrict]
    exact (settings_interfere_where_asked context ⟨0, 0, 0⟩ [] limit).1 hlimit _ _ rfl
  · rw [← hloose]
    exact (settings_interfere_where_asked context ⟨0, 0, 0⟩ [] same).2 hsame _ _ rfl

end Expr

end Proviso
