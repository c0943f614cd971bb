/-
What an evaluation looks at.

`Mentions name e` says that a path of `e` starts at `name`, not counting what `.every` binds, and `LooksBack e` that `e`
calls a builtin which reads the earlier state of the record. `eval_congr`: two environments with the same options and
clock give an expression the same operand when they give its paths the same values and, if it looks back, agree on the
earlier state.
-/
import Proviso.Eval

namespace Proviso

/-- whether a builtin reads the earlier state of the record -/
def Builtin.looksBack : Builtin → Bool
  | .changed | .previous | .delta => true
  | _ => false

theorem Builtin.looksBack_eq_true {f : Builtin} : f.looksBack = true ↔ f = .changed ∨ f = .previous ∨ f = .delta := by
  cases f <;> simp [looksBack]

namespace Expr

mutual

/-- a path of the expression starts at `name`, and no `.every` around it binds that name -/
def Mentions (name : String) : Expr → Prop
  | .literal _ => False
  | .field p => p.root = name
  | .call _ args => MentionsIn name args
  | .array items => MentionsIn name items
  | .not e => e.Mentions name
  | .binary _ left right => left.Mentions name ∨ right.Mentions name
  | .length e => e.Mentions name
  | .every p param body => p.root = name ∨ param ≠ name ∧ body.Mentions name

/-- one of the expressions mentions `name` -/
def MentionsIn (name : String) : List Expr → Prop
  | [] => False
  | e :: rest => e.Mentions name ∨ MentionsIn name rest

end

mutual

/-- a call in the expression reads the earlier state of the record -/
def LooksBack : Expr → Prop
  | .literal _ => False
  | .field _ => False
  | .call f args => f.looksBack = true ∨ LooksBackIn args
  | .array items => LooksBackIn items
  | .not e => e.LooksBack
  | .binary _ left right => left.LooksBack ∨ right.LooksBack
  | .length e => e.LooksBack
  | .every _ _ body => body.LooksBack

/-- one of the expressions looks back -/
def LooksBackIn : List Expr → Prop
  | [] => False
  | e :: rest => e.LooksBack ∨ LooksBackIn rest

end

end Expr

/-! ## Environments that agree -/

/-- two environments agree on the names in `names`, and on the earlier state of the record when `back` -/
structure Env.Agree (names : String → Prop) (back : Prop) (env env' : Env) : Prop where
  options : env.options = env'.options
  clock : env.clock = env'.clock
  previous : back → env.context.previous? = env'.context.previous?
  resolve : ∀ p : Path, names p.root → env.resolve p = env'.resolve p

namespace Env.Agree

variable {names names' : String → Prop} {back back' : Prop} {env env' : Env}

theorem mono (h : Env.Agree names back env env') (hn : ∀ name, names' name → names name) (hb : back' → back) :
    Env.Agree names' back' env env' :=
  ⟨h.options, h.clock, fun b => h.previous (hb b), fun p hp => h.resolve p (hn p.root hp)⟩

theorem before (h : Env.Agree names back env env') (hb : back) (p : Path) : env.before p = env'.before p := by
  rw [Env.before, Env.before, h.previous hb]

/-- a bound name hides what was there before, so nothing needs to agree on it -/
theorem bind (param : String) (v : Json) (h : Env.Agree (fun name => names name ∧ param ≠ name) back env env') :
    Env.Agree names back (env.bind param v) (env'.bind param v) := by
  refine ⟨h.options, h.clock, h.previous, fun p hp => ?_⟩
  simp only [Env.resolve, Env.bind, Record.get?_set]
  by_cases hroot : param = p.root
  · simp [hroot]
  · have := h.resolve p ⟨hp, hroot⟩
    simpa [hroot, Env.resolve] using this

end Env.Agree

theorem Builtin.apply_congr {names : String → Prop} {back : Prop} {env env' : Env} (h : Env.Agree names back env env')
    (f : Builtin) (hf : f.looksBack = true → back) (path : Option Path) (hp : ∀ p, path = some p → names p.root)
    (args : List Operand) : f.apply env path args = f.apply env' path args := by
  cases hback : f.looksBack with
  | true =>
    -- the three that look back take the path as it is written
    have hb := h.before (hf hback)
    cases path with
    | none => rcases looksBack_eq_true.1 hback with rfl | rfl | rfl <;> rfl
    | some p =>
      have hr := h.resolve p (hp p rfl)
      rcases looksBack_eq_true.1 hback with rfl | rfl | rfl <;> simp only [apply, Option.map_some, hb p, hr]
  | false => cases f <;> first | exact absurd hback (by decide) | simp only [apply, h.options, h.clock]

namespace Expr

theorem mentions_path {args : List Expr} {p : Path} (h : args.head?.bind path? = some p) : MentionsIn p.root args := by
  cases args with
  | nil => simp at h
  | cons e rest => cases e <;> simp_all [path?, MentionsIn, Mentions]

mutual

/-- **An evaluation sees only what the expression mentions.** -/
theorem eval_congr {env env' : Env} (e : Expr) (h : Env.Agree (fun name => e.Mentions name) e.LooksBack env env') :
    e.eval env = e.eval env' := by
  cases e with
  | literal l => rfl
  | field p => simp only [eval, h.resolve p rfl]
  | call f args =>
    have hargs := evalItems_congr args (h.mono (fun _ hn => hn) fun hb => .inr hb)
    simp only [eval, hargs]
    exact Builtin.apply_congr h f (fun hb => .inl hb) _ (fun p hp => mentions_path hp) _
  | array items => simp only [eval, evalItems_congr items (h.mono (fun _ hn => hn) fun hb => hb)]
  | not e => simp only [eval, eval_congr e (h.mono (fun _ hn => hn) fun hb => hb)]
  | binary op left right =>
    have hl := eval_congr left (h.mono (fun _ hn => .inl hn) fun hb => .inl hb)
    have hr := eval_congr right (h.mono (fun _ hn => .inr hn) fun hb => .inr hb)
    simp only [eval, hl, hr, h.options]
  | length e => simp only [eval, eval_congr e (h.mono (fun _ hn => hn) fun hb => hb)]
  | every p param body =>
    have hbody : ∀ v, body.eval (env.bind param v) = body.eval (env'.bind param v) := fun v =>
      eval_congr body (Env.Agree.bind param v (h.mono (fun _ hn => .inr ⟨hn.2, hn.1⟩) fun hb => hb))
    simp only [eval, h.resolve p (.inl rfl), hbody]

theorem evalItems_congr {env env' : Env} (es : List Expr)
    (h : Env.Agree (fun name => MentionsIn name es) (LooksBackIn es) env env') :
    evalItems env es = evalItems env' es := by
  cases es with
  | nil => rfl
  | cons e rest =>
    have he := eval_congr e (h.mono (fun _ hn => .inl hn) fun hb => .inl hb)
    have hrest := evalItems_congr rest (h.mono (fun _ hn => .inr hn) fun hb => .inr hb)
    simp only [evalItems, he, hrest]

end

end Expr

end Proviso
