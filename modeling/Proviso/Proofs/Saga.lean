/-
Verdicts on sagas do not depend on the order of the steps, nor on steps that are not completed.

What a verdict takes from a list of steps is read step by step, and what is made of it is the same in any order: amounts are
added up, times are held against a limit and the earliest and the latest of them found, identifiers are compared in pairs.
Amounts and times are read of completed steps only. So where two sagas have the same completed steps, these two verdicts are
the same (`amountConserved_congr`, `timeoutValid_congr`), and where identifiers differ in pairs, they do so in every part of
the list (`stepsSequential_of_sublist`). For whole sagas this is `verdicts_relisted`.
-/
import Mathlib.Algebra.BigOperators.Group.List.Basic
import Proviso.Proofs.Instant.Order
import Proviso.Proofs.Json.Equality
import Proviso.Proofs.Json.Fields
import Proviso.Verdict.Saga

namespace Proviso.Verdict

-- a sum starts at the zero of the core library, whatever else is in scope
attribute [local instance (2000)] Zero.ofOfNat0

variable {step saga saga' : Json} {xs ys : List Json} {times times' : List (Instant × Instant)}

/-! ## Completed steps -/

/-- the step has been carried out -/
def Completed (step : Json) : Prop := step.get? "status" = some (.string "completed")

theorem isCompleted_iff : isCompleted step = true ↔ Completed step := by
  rw [isCompleted, beq_iff_eq, Json.stringAt?, Completed, Option.bind_eq_some_iff]
  constructor
  · rintro ⟨v, hv, hstring⟩
    cases v with
    | string s =>
      obtain rfl := Option.some.inj hstring
      exact hv
    | null | bool | number | array | object => cases hstring
  · intro h
    exact ⟨_, h, rfl⟩

/-- One list becomes the other when steps that are not completed are put in or left out, in any places. -/
inductive PendingAside : List Json → List Json → Prop
  | nil : PendingAside [] []
  | both (step : Json) {xs ys : List Json} (h : PendingAside xs ys) : PendingAside (step :: xs) (step :: ys)
  | insert {step : Json} {xs ys : List Json} (hpending : ¬ Completed step) (h : PendingAside xs ys) :
      PendingAside xs (step :: ys)
  | remove {step : Json} {xs ys : List Json} (hpending : ¬ Completed step) (h : PendingAside xs ys) :
      PendingAside (step :: xs) ys

/-- the same steps are completed, in whatever order -/
def SameCompleted (xs ys : List Json) : Prop := (xs.filter isCompleted).Perm (ys.filter isCompleted)

theorem sameCompleted_of_perm (h : xs.Perm ys) : SameCompleted xs ys := h.filter isCompleted

theorem PendingAside.sameCompleted (h : PendingAside xs ys) : SameCompleted xs ys := by
  induction h with
  | nil => exact .refl []
  | both step _ ih =>
    rw [SameCompleted, List.filter_cons, List.filter_cons]
    split
    · exact ih.cons step
    · exact ih
  | insert hpending _ ih =>
    rwa [SameCompleted, List.filter_cons_of_neg (by rwa [isCompleted_iff])]
  | remove hpending _ ih =>
    rwa [SameCompleted, List.filter_cons_of_neg (by rwa [isCompleted_iff])]

/-! ## What is made of the steps -/

/-- whether the amounts balance depends on the completed steps alone -/
theorem amountConserved_congr (hsteps : Option.Rel SameCompleted (saga.listAt? "steps") (saga'.listAt? "steps"))
    (hcompensation :
      Option.Rel SameCompleted (saga.listAt? "compensation_steps") (saga'.listAt? "compensation_steps")) :
    amountConserved saga = amountConserved saga' := by
  rw [amountConserved, amountConserved]
  generalize saga.listAt? "steps" = forward, saga'.listAt? "steps" = forward' at hsteps
  generalize saga.listAt? "compensation_steps" = back, saga'.listAt? "compensation_steps" = back' at hcompensation
  cases hsteps with
  | none => rfl
  | @some xs xs' hxs =>
    cases hcompensation with
    | none => rfl
    | @some ys ys' hys =>
      have hmoved : Option.Rel List.Perm (completedAmounts? xs) (completedAmounts? xs') := mapM_perm hxs
      have hreturned : Option.Rel List.Perm (completedAmounts? ys) (completedAmounts? ys') := mapM_perm hys
      dsimp only
      generalize completedAmounts? xs = moved, completedAmounts? xs' = moved' at hmoved
      generalize completedAmounts? ys = returned, completedAmounts? ys' = returned' at hreturned
      cases hmoved with
      | none => rfl
      | some hmoved =>
        cases hreturned with
        | none => rfl
        | some hreturned =>
          dsimp only
          rw [hmoved.sum_eq, hreturned.sum_eq, hreturned.isEmpty_eq]

theorem distinct_iff : distinct xs = true ↔ xs.Pairwise fun v w => ¬ v.Same w := by
  induction xs with
  | nil => exact ⟨fun _ => .nil, fun _ => rfl⟩
  | cons v rest ih =>
    rw [distinct, Bool.and_eq_true, List.pairwise_cons, ih, List.all_eq_true]
    simp only [Json.Same, Bool.not_eq_true, Bool.not_eq_true']

theorem distinct_perm (h : xs.Perm ys) : distinct xs = distinct ys := by
  rw [Bool.eq_iff_iff, distinct_iff, distinct_iff]
  exact h.pairwise_iff fun hne hsame => hne hsame.symm

theorem stepsSequential_congr (hsteps : Option.Rel List.Perm (saga.listAt? "steps") (saga'.listAt? "steps")) :
    stepsSequential saga = stepsSequential saga' := by
  rw [stepsSequential, stepsSequential]
  generalize saga.listAt? "steps" = steps, saga'.listAt? "steps" = steps' at hsteps
  cases hsteps with
  | none => rfl
  | @some xs ys hperm =>
    have hids := mapM_perm (f := fun step => Json.get? step "step_id") hperm
    dsimp only
    generalize xs.mapM (fun step => Json.get? step "step_id") = ids,
      ys.mapM (fun step => Json.get? step "step_id") = ids' at hids
    cases hids with
    | none => rfl
    | some hids => exact distinct_perm hids

/-- where all identifiers differ, those of a part differ -/
theorem stepsSequential_of_sublist
    (hsteps : Option.Rel (fun xs ys => List.Sublist ys xs) (saga.listAt? "steps") (saga'.listAt? "steps"))
    (h : stepsSequential saga = true) : stepsSequential saga' = true := by
  rw [stepsSequential] at h ⊢
  generalize saga.listAt? "steps" = steps, saga'.listAt? "steps" = steps' at hsteps h
  cases hsteps with
  | none => exact h
  | some hsub =>
    obtain ⟨ids, hids, hdistinct⟩ := (Option.any_eq_true _ _).1 h
    obtain ⟨ids', hids', hsub'⟩ := mapM_sublist_eq_some hsub hids
    exact (Option.any_eq_true _ _).2 ⟨ids', hids', distinct_iff.2 ((distinct_iff.1 hdistinct).sublist hsub')⟩

/-! ## Times -/

/-- the earliest start and the latest completion so far, with one step more -/
def widen (span times : Instant × Instant) : Instant × Instant := (span.1.min times.1, span.2.max times.2)

theorem widen_comm (s t : Instant × Instant) : widen s t = widen t s := by
  apply Prod.ext
  · apply Instant.place_inj
    rw [widen, widen, Instant.place_min, Instant.place_min, min_comm]
  · apply Instant.place_inj
    rw [widen, widen, Instant.place_max, Instant.place_max, max_comm]

theorem widen_right_comm (s t u : Instant × Instant) : widen (widen s t) u = widen (widen s u) t := by
  apply Prod.ext
  · apply Instant.place_inj
    simp only [widen, Instant.place_min, min_right_comm]
  · apply Instant.place_inj
    simp only [widen, Instant.place_max, max_right_comm]

/-- the time from the earliest start to the latest completion does not depend on the order of the steps -/
theorem overallTimes?_perm (h : times.Perm times') : overallTimes? times = overallTimes? times' := by
  induction h with
  | nil => rfl
  | cons t h _ => exact congrArg some (h.foldl_eq' (fun t _ u _ span => widen_right_comm span t u) t)
  | swap t u rest =>
    -- the one that comes first is where the other is added
    change some (rest.foldl widen (widen u t)) = some (rest.foldl widen (widen t u))
    rw [widen_comm]
  | trans _ _ ih ih' => exact ih.trans ih'

/-- whether the limits are kept depends on the limits and the completed steps alone -/
theorem timeoutValid_congr (hlimits : saga.get? "timeout" = saga'.get? "timeout")
    (hsteps : Option.Rel SameCompleted (saga.listAt? "steps") (saga'.listAt? "steps")) :
    timeoutValid saga = timeoutValid saga' := by
  rw [timeoutValid, timeoutValid, hlimits]
  generalize saga.listAt? "steps" = steps, saga'.listAt? "steps" = steps' at hsteps
  cases hsteps with
  | none => rfl
  | @some xs ys hcompleted =>
    have htimes := mapM_perm (f := stepTimes?) hcompleted
    cases saga'.get? "timeout" with
    | none => rfl
    | some v =>
      cases v with
      | null | bool | number | string | array => rfl
      | object limits =>
        dsimp only
        generalize (xs.filter isCompleted).mapM stepTimes? = times,
          (ys.filter isCompleted).mapM stepTimes? = times' at htimes
        cases htimes with
        | none => rfl
        | some hperm =>
          cases Json.numberAt? (.object limits) "per_step_seconds" with
          | none => rfl
          | some perStep =>
            dsimp only
            rw [hperm.all_eq, overallTimes?_perm hperm]

/-! ## Whole sagas -/

/-- Two sagas that differ in their lists of steps and of compensation steps at most: either is malformed in both, or
it is related in the two. Everything else is the same. -/
structure Relisted (related : List Json → List Json → Prop) (saga saga' : Json) : Prop where
  steps : Option.Rel related (saga.listAt? "steps") (saga'.listAt? "steps")
  compensation : Option.Rel related (saga.listAt? "compensation_steps") (saga'.listAt? "compensation_steps")
  others : ∀ key, key ≠ "steps" → key ≠ "compensation_steps" → saga.get? key = saga'.get? key

theorem Relisted.mono {related related' : List Json → List Json → Prop} (h : Relisted related saga saga')
    (himp : ∀ {xs ys}, related xs ys → related' xs ys) : Relisted related' saga saga' :=
  ⟨rel_mono h.steps himp, rel_mono h.compensation himp, h.others⟩

/-- the saga that has these steps, these compensation steps, and the other fields of a record -/
def withSteps (others : Record) (steps compensation : List Json) : Record :=
  (others.set "compensation_steps" (.array compensation)).set "steps" (.array steps)

/-- an array of steps may be put in the place of one that it is related to -/
theorem relisted_withSteps {related : List Json → List Json → Prop} {back back' : List Json} (others : Record)
    (hsteps : related xs ys) (hback : related back back') :
    Relisted related (.object (withSteps others xs back)) (.object (withSteps others ys back')) := by
  have hlists (xs back : List Json) : Json.listAt? (.object (withSteps others xs back)) "steps" = some xs ∧
      Json.listAt? (.object (withSteps others xs back)) "compensation_steps" = some back := by
    simp [Json.listAt?, Json.get?, withSteps, Record.get?_set]
  constructor
  · rw [(hlists _ _).1, (hlists _ _).1]
    exact .some hsteps
  · rw [(hlists _ _).2, (hlists _ _).2]
    exact .some hback
  · intro key hkey hkey'
    have hothers (xs back : List Json) : Json.get? (.object (withSteps others xs back)) key = others.get? key := by
      rw [Json.get?, withSteps, Record.get?_set, if_neg hkey.symm, Record.get?_set, if_neg hkey'.symm]
    rw [hothers, hothers]

/-- whether the amounts balance and the limits are kept is the same in two sagas with the same completed steps -/
theorem Relisted.amounts_and_times (h : Relisted SameCompleted saga saga') :
    amountConserved saga = amountConserved saga' ∧ timeoutValid saga = timeoutValid saga' :=
  ⟨amountConserved_congr h.steps h.compensation,
    timeoutValid_congr (h.others "timeout" (by decide) (by decide)) h.steps⟩

theorem onSaga_object (judge : Json → Bool) (fields : Record) :
    onSaga judge (.json (.object fields)) = .bool (judge (.object fields)) := rfl

/-- **The verdicts on a saga depend neither on the order of its steps nor on steps that are not completed.** All three stay
the same when the steps and the compensation steps are put into another order. Whether the amounts balance and the limits are
kept also stays the same when steps that are not completed are put in or left out, in any places. And where the identifiers
of the steps differ, leaving out steps does not change that. -/
theorem verdicts_relisted (saga saga' : Record) :
    (Relisted List.Perm (.object saga) (.object saga') →
      sagaAmountConserved (.json (.object saga)) = sagaAmountConserved (.json (.object saga')) ∧
      sagaStepsSequential (.json (.object saga)) = sagaStepsSequential (.json (.object saga')) ∧
      sagaTimeoutValid (.json (.object saga)) = sagaTimeoutValid (.json (.object saga'))) ∧
    (Relisted PendingAside (.object saga) (.object saga') →
      sagaAmountConserved (.json (.object saga)) = sagaAmountConserved (.json (.object saga')) ∧
      sagaTimeoutValid (.json (.object saga)) = sagaTimeoutValid (.json (.object saga'))) ∧
    (Relisted (fun xs ys => List.Sublist ys xs) (.object saga) (.object saga') →
      sagaStepsSequential (.json (.object saga)) = .bool true →
      sagaStepsSequential (.json (.object saga')) = .bool true) := by
  simp only [sagaAmountConserved, sagaStepsSequential, sagaTimeoutValid, onSaga_object]
  refine ⟨fun hperm => ?_, fun haside => ?_, fun hpart haccepted => ?_⟩
  · obtain ⟨hamounts, htimes⟩ := (hperm.mono sameCompleted_of_perm).amounts_and_times
    rw [hamounts, htimes, stepsSequential_congr hperm.steps]
    exact ⟨rfl, rfl, rfl⟩
  · obtain ⟨hamounts, htimes⟩ := (haside.mono PendingAside.sameCompleted).amounts_and_times
    rw [hamounts, htimes]
    exact ⟨rfl, rfl⟩
  · rw [stepsSequential_of_sublist hpart.steps (Operand.bool_inj.1 haccepted)]

def sagaStep (id status amount started completed : String) : Json :=
  .object [("step_id", .string id), ("status", .string status), ("amount_micro", .string amount),
    ("started_at", .string started), ("completed_at", .string completed)]

/-- 60 seconds for one step and 90 for all of them -/
def limits : Record :=
  [("timeout", .object [("per_step_seconds", .number (.int ⟨60, by decide, by decide⟩)),
    ("total_seconds", .number (.int ⟨90, by decide, by decide⟩))])]

/-- two steps that one takes back, in either order and with a third that waits; the first two are accepted without it -/
theorem verdicts_of_debit_and_credit :
    let debit := sagaStep "s1" "completed" "1000" "2026-01-01T00:00:00Z" "2026-01-01T00:01:00Z"
    let credit := sagaStep "s2" "completed" "500" "2026-01-01T00:01:00Z" "2026-01-01T00:01:30Z"
    let waiting := sagaStep "s3" "pending" "none" "never" "never"
    let refund := sagaStep "c1" "completed" "1500" "never" "never"
    let saga (steps : List Json) : Operand := .json (.object (withSteps limits steps [refund]))
    (sagaAmountConserved (saga [debit, credit]) = .bool true ∧ sagaTimeoutValid (saga [debit, credit]) = .bool true) ∧
    (sagaAmountConserved (saga [credit, debit]) = .bool true ∧ sagaTimeoutValid (saga [credit, debit]) = .bool true) ∧
    (sagaAmountConserved (saga [debit, waiting, credit]) = .bool true ∧
      sagaTimeoutValid (saga [debit, waiting, credit]) = .bool true) ∧
    sagaStepsSequential (saga [debit, waiting, credit]) = .bool true ∧
    sagaStepsSequential (saga [debit, credit]) = .bool true := by
  intro debit credit waiting refund saga
  have hpending : ¬ Completed waiting := by
    rw [← isCompleted_iff]
    decide +kernel
  have hamounts : amountConserved (.object (withSteps limits [debit, credit] [refund])) = true := by decide +kernel
  have htimes : timeoutValid (.object (withSteps limits [debit, credit] [refund])) = true := by decide +kernel
  have hids : stepsSequential (.object (withSteps limits [debit, waiting, credit] [refund])) = true := by decide +kernel
  have hswapped : Relisted List.Perm (.object (withSteps limits [debit, credit] [refund]))
      (.object (withSteps limits [credit, debit] [refund])) := relisted_withSteps limits (.swap credit debit []) (.refl _)
  have haside : Relisted PendingAside (.object (withSteps limits [debit, credit] [refund]))
      (.object (withSteps limits [debit, waiting, credit] [refund])) :=
    relisted_withSteps limits (.both debit (.insert hpending (.both credit .nil))) (.both refund .nil)
  have hpart : Relisted (fun xs ys => List.Sublist ys xs) (.object (withSteps limits [debit, waiting, credit] [refund]))
      (.object (withSteps limits [debit, credit] [refund])) :=
    relisted_withSteps limits (.cons_cons debit (.cons waiting (.refl _))) (.refl _)
  obtain ⟨hamounts', -, htimes'⟩ := (verdicts_relisted _ _).1 hswapped
  obtain ⟨hamounts'', htimes''⟩ := (verdicts_relisted _ _).2.1 haside
  have hconserved : sagaAmountConserved (saga [debit, credit]) = .bool true :=
    (onSaga_object amountConserved _).trans (congrArg Operand.bool hamounts)
  have hvalid : sagaTimeoutValid (saga [debit, credit]) = .bool true :=
    (onSaga_object timeoutValid _).trans (congrArg Operand.bool htimes)
  have hsequential : sagaStepsSequential (saga [debit, waiting, credit]) = .bool true :=
    (onSaga_object stepsSequential _).trans (congrArg Operand.bool hids)
  refine ⟨⟨hconserved, hvalid⟩, ⟨?_, ?_⟩, ⟨?_, ?_⟩, hsequential, (verdicts_relisted _ _).2.2 hpart hsequential⟩
  · exact hamounts'.symm.trans hconserved
  · exact htimes'.symm.trans hvalid
  · exact hamounts''.symm.trans hconserved
  · exact htimes''.symm.trans hvalid

end Proviso.Verdict
