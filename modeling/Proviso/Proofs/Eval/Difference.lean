/-
When the difference of two numeric values is a number.

Numeric are the JSON numbers and the texts of decimal form (`Json.Numeric`). Between two values that denote integers `delta`
is the exact difference, of any size. Between others it is the double nearest to the difference of their doubles. That is
a number as long as the values and the difference stay below 2^1024 - 2^970 (`DifferenceInRange`), as they mostly do; past
it the double is not finite and `delta` is null (`delta_is_number_iff`), as it is between the largest double and its opposite
(`delta_between_extremes_is_null`). A value that is missing or not numeric makes it false.
-/
import Proviso.Proofs.Decimal.Fraction
import Proviso.Proofs.Decimal.Spelling
import Proviso.Proofs.Eval.Change

namespace Proviso

namespace Json

/-- a JSON number, or a text of decimal form -/
inductive Numeric : Json → Prop
  | number (n : Number) : Numeric (.number n)
  | text (f : Decimal.Fraction) : Numeric (.string (String.ofList f.text))

/-- a numeric value whose double is finite: a JSON number, or a decimal fraction below 2^1024 - 2^970 -/
inductive InRange : Json → Prop
  | number (n : Number) : InRange (.number n)
  | text {f : Decimal.Fraction} (h : f.InRange) : InRange (.string (String.ofList f.text))

variable {v : Json}

theorem toDouble?_text (f : Decimal.Fraction) : (Json.string (String.ofList f.text)).toDouble? = some f.double := by
  rw [toDouble?, String.toList_ofList]
  exact Decimal.plain?_eq_some_iff.2 ⟨f, rfl, rfl⟩

theorem numeric_iff : v.Numeric ↔ ∃ x, v.toDouble? = some x := by
  constructor
  · intro h
    cases h with
    | number n => exact ⟨n.toDouble, rfl⟩
    | text f => exact ⟨f.double, toDouble?_text f⟩
  · rintro ⟨x, hx⟩
    cases v with
    | number n => exact .number n
    | string s =>
      obtain ⟨f, hf, -⟩ := Decimal.plain?_eq_some_iff.1 hx
      rw [← String.ofList_toList (s := s), ← hf]
      exact .text f
    | null | bool | array | object => cases hx

/-- what denotes an integer is numeric -/
theorem numeric_of_toInt? {n : Int} (h : v.toInt? = some n) : v.Numeric := by
  cases v with
  | number n => exact .number n
  | string s => exact numeric_iff.2 ⟨_, Decimal.plain?_of_canonical? h⟩
  | null | bool | array | object => cases h

theorem inRange_iff : v.InRange ↔ ∃ x, v.toDouble? = some (.finite x) := by
  constructor
  · intro h
    cases h with
    | number n =>
      obtain ⟨x, hx⟩ := n.exists_toDouble
      exact ⟨x, congrArg some hx⟩
    | @text f h =>
      obtain ⟨x, hx⟩ := f.exists_double_iff.2 h
      exact ⟨x, hx ▸ toDouble?_text f⟩
  · rintro ⟨x, hx⟩
    obtain hnumeric := numeric_iff.2 ⟨_, hx⟩
    cases hnumeric with
    | number n => exact .number n
    | text f => exact .text (f.exists_double_iff.1 ⟨x, Option.some.inj ((toDouble?_text f).symm.trans hx)⟩)

/-- both values denote integers -/
def BothIntegers (old new : Json) : Prop := (∃ m, old.toInt? = some m) ∧ ∃ n, new.toInt? = some n

/-- both values and the difference of their doubles are below 2^1024 - 2^970 -/
structure DifferenceInRange (old new : Json) : Prop where
  earlier : old.InRange
  now : new.InRange
  difference : ∀ x y, old.toDouble? = some (.finite x) → new.toDouble? = some (.finite y) →
    (y.units - x.units).natAbs < Double.overflowUnits

/-- the difference of the doubles is finite just where the values and the difference are in range -/
theorem differenceInRange_iff {old new : Json} {x y : Double} (hx : old.toDouble? = some x) (hy : new.toDouble? = some y) :
    DifferenceInRange old new ↔ ∃ z, y.sub x = .finite z := by
  constructor
  · rintro ⟨hold, hnew, hdifference⟩
    obtain ⟨a, ha⟩ := inRange_iff.1 hold
    obtain ⟨b, hb⟩ := inRange_iff.1 hnew
    obtain rfl := Option.some.inj (hx.symm.trans ha)
    obtain rfl := Option.some.inj (hy.symm.trans hb)
    exact (Double.exists_sub_iff b a).2 (hdifference a b ha hb)
  · rintro ⟨z, hz⟩
    obtain ⟨b, a, rfl, rfl⟩ := Double.exists_finite_of_sub hz
    refine ⟨inRange_iff.2 ⟨a, hx⟩, inRange_iff.2 ⟨b, hy⟩, ?_⟩
    intro a' b' ha' hb'
    obtain ⟨⟩ := hx.symm.trans ha'
    obtain ⟨⟩ := hy.symm.trans hb'
    exact (Double.exists_sub_iff b a).1 ⟨z, hz⟩

end Json

namespace Expr

/-- What `delta` is between an earlier value and a value now that are both numeric. -/
structure DeltaBetween (env : Env) (p : Path) (old new : Json) : Prop where
  exact : ∀ m n, old.toInt? = some m → new.toInt? = some n → (call .delta [field p]).eval env = .int (n - m)
  rounded : ¬ Json.BothIntegers old new → Json.DifferenceInRange old new →
    ∃ x y z, old.toDouble? = some (.finite x) ∧ new.toDouble? = some (.finite y) ∧
      (Double.finite y).sub (.finite x) = .finite z ∧ (call .delta [field p]).eval env = .json (.number (.float z))
  null : ¬ Json.BothIntegers old new → ¬ Json.DifferenceInRange old new →
    (call .delta [field p]).eval env = .json .null

/-- an exact integer or a JSON number -/
def IsNumber (o : Operand) : Prop := (∃ n, o = .int n) ∨ ∃ n, o = .json (.number n)

variable {env : Env} {p : Path} {old new : Json}

/-- values that do not both denote integers are subtracted as doubles -/
theorem delta_of_doubles {x y : Double} (hbefore : env.before p = some (some old)) (hnow : env.resolve p = some new)
    (hints : ¬ Json.BothIntegers old new) (hx : old.toDouble? = some x) (hy : new.toDouble? = some y) :
    (call .delta [field p]).eval env = .double (y.sub x) := by
  rw [eval_delta, hbefore, hnow]
  simp only [Verdict.delta, hx, hy]
  split
  next m n hm hn => exact absurd ⟨⟨m, hm⟩, ⟨n, hn⟩⟩ hints
  next => rfl

theorem deltaBetween_of_numeric (hbefore : env.before p = some (some old)) (hnow : env.resolve p = some new)
    (hold : old.Numeric) (hnew : new.Numeric) : DeltaBetween env p old new := by
  obtain ⟨x, hx⟩ := Json.numeric_iff.1 hold
  obtain ⟨y, hy⟩ := Json.numeric_iff.1 hnew
  refine ⟨fun m n hm hn => ?_, fun hints hrange => ?_, fun hints hrange => ?_⟩
  · rw [eval_delta, hbefore, hnow]
    simp only [Verdict.delta, hm, hn]
  · obtain ⟨z, hz⟩ := (Json.differenceInRange_iff hx hy).1 hrange
    obtain ⟨b, a, rfl, rfl⟩ := Double.exists_finite_of_sub hz
    refine ⟨a, b, z, hx, hy, hz, ?_⟩
    rw [delta_of_doubles hbefore hnow hints hx hy, hz]
    rfl
  · rw [delta_of_doubles hbefore hnow hints hx hy]
    rw [Json.differenceInRange_iff hx hy] at hrange
    cases hz : y.sub x with
    | finite z => exact absurd ⟨z, hz⟩ hrange
    | infinite | nan => rfl

/-- `delta` is a number just where both values denote integers or the difference of their doubles is in range -/
theorem DeltaBetween.isNumber_iff (h : DeltaBetween env p old new) :
    IsNumber ((call .delta [field p]).eval env) ↔ Json.BothIntegers old new ∨ Json.DifferenceInRange old new := by
  by_cases hints : Json.BothIntegers old new
  · obtain ⟨⟨m, hm⟩, ⟨n, hn⟩⟩ := hints
    exact iff_of_true (.inl ⟨_, h.exact m n hm hn⟩) (.inl ⟨⟨m, hm⟩, ⟨n, hn⟩⟩)
  by_cases hrange : Json.DifferenceInRange old new
  · obtain ⟨x, y, z, -, -, -, hz⟩ := h.rounded hints hrange
    exact iff_of_true (.inr ⟨_, hz⟩) (.inr hrange)
  · rw [h.null hints hrange]
    refine iff_of_false ?_ (not_or.2 ⟨hints, hrange⟩)
    rintro (⟨n, hn⟩ | ⟨n, hn⟩) <;> cases hn

/-- where a value is missing or not numeric, there is no difference -/
theorem delta_of_not_numeric {before now : Option Json} (hbefore : env.before p = some before)
    (hnow : env.resolve p = now)
    (h : ∀ old new, before = some old → now = some new → ¬ (old.Numeric ∧ new.Numeric)) :
    (call .delta [field p]).eval env = .bool false := by
  rw [eval_delta, hbefore, hnow]
  cases before with
  | none => rfl
  | some old =>
    cases now with
    | none => rfl
    | some new =>
      have hnone := h old new rfl rfl
      simp only [Verdict.delta]
      split
      next m n hm hn => exact absurd ⟨Json.numeric_of_toInt? hm, Json.numeric_of_toInt? hn⟩ hnone
      next =>
        split
        next x y hx hy => exact absurd ⟨Json.numeric_iff.2 ⟨x, hx⟩, Json.numeric_iff.2 ⟨y, hy⟩⟩ hnone
        next => rfl

/-- **The difference of two numeric values is a number exactly when it stays in range.** In a record with an earlier state,
`delta` is the exact difference of values that both denote integers. Otherwise it is the double nearest to the difference of
their doubles where the values and that difference are below 2^1024 - 2^970, and null where they are not. It is never a boolean
then; where a value is missing or not numeric it is false. -/
theorem delta_is_number_iff (env : Env) (p : Path) (h : env.context.HasSnapshot) :
    ∃ before, env.before p = some before ∧
      (∀ old new, before = some old → env.resolve p = some new → old.Numeric → new.Numeric →
        DeltaBetween env p old new ∧
        (IsNumber ((call .delta [field p]).eval env) ↔ Json.BothIntegers old new ∨ Json.DifferenceInRange old new)) ∧
      ((∀ old new, before = some old → env.resolve p = some new → ¬ (old.Numeric ∧ new.Numeric)) →
        (call .delta [field p]).eval env = .bool false) := by
  obtain ⟨before, hbefore⟩ := Env.before_of_snapshot h p
  refine ⟨before, hbefore, ?_, delta_of_not_numeric hbefore rfl⟩
  rintro old new rfl hnow hold hnew
  have hdelta := deltaBetween_of_numeric hbefore hnow hold hnew
  exact ⟨hdelta, hdelta.isNumber_iff⟩

/-- the largest finite double -/
def largest : Double.Finite := ⟨false, Double.finiteCodes - 1, by decide⟩

/-- the largest double less a half, which is written as a text, is a number -/
theorem delta_of_largest_and_text :
    let env : Env := {
      context := .object [("v", .number (.float largest)), (previousKey, .object [("v", .string "0.5")])],
      options := {}, clock := ⟨0, 0, 0⟩ }
    env.context.HasSnapshot ∧ IsNumber ((call .delta [field ⟨"v", []⟩]).eval env) := by
  intro env
  have hsnapshot : env.context.HasSnapshot := ⟨_, rfl⟩
  have hnow : env.resolve ⟨"v", []⟩ = some (.number (.float largest)) := rfl
  have hhalf : (Json.string "0.5").toDouble? = some (.ofUnits false (2 ^ 1073) 1) := by decide +kernel
  have hdifference : (Double.finite largest).sub (.ofUnits false (2 ^ 1073) 1) = .finite largest := by decide +kernel
  have hrange : Json.DifferenceInRange (.string "0.5") (.number (.float largest)) :=
    (Json.differenceInRange_iff hhalf rfl).2 ⟨_, hdifference⟩
  obtain ⟨before, hbefore, hnumeric, -⟩ := delta_is_number_iff env ⟨"v", []⟩ hsnapshot
  obtain rfl : some (Json.string "0.5") = before := Option.some.inj hbefore
  obtain ⟨-, hiff⟩ := hnumeric _ _ rfl hnow (Json.numeric_iff.2 ⟨_, hhalf⟩) (.number _)
  exact ⟨hsnapshot, hiff.2 (.inr hrange)⟩

/-- **Between the largest double and its opposite `delta` is null,** though both are JSON numbers. -/
theorem delta_between_extremes_is_null :
    let env : Env := {
      context := .object [("v", .number (.float largest)),
        (previousKey, .object [("v", .number (.float { largest with neg := true }))])],
      options := {}, clock := ⟨0, 0, 0⟩ }
    (call .delta [field ⟨"v", []⟩]).eval env = .json .null := by
  intro env
  have hdifference : (Double.finite largest).sub (.finite { largest with neg := true }) = .infinite false := by
    decide +kernel
  have hints : ¬ Json.BothIntegers (.number (.float { largest with neg := true })) (.number (.float largest)) := by
    rintro ⟨⟨m, hm⟩, -⟩
    cases hm
  have hdelta : (call .delta [field ⟨"v", []⟩]).eval env =
      .double ((Double.finite largest).sub (.finite { largest with neg := true })) :=
    delta_of_doubles rfl rfl hints rfl rfl
  rw [hdelta, hdifference]
  rfl

end Expr

end Proviso
