/-
Verdicts on sagas: steps that are carried out one by one, and compensation steps that take them back.

Only steps whose status is `completed` count towards amounts and times.
-/
import Proviso.Verdict.Delegation
import Proviso.Verdict.Shape

namespace Proviso.Verdict

/-- whether a step has been carried out -/
def isCompleted (step : Json) : Bool := step.stringAt? "status" == some "completed"

/-- the amounts of the completed steps -/
def completedAmounts? (steps : List Json) : Option (List Int) :=
  (steps.filter isCompleted).mapM (·.intAt? "amount_micro")

/-- a verdict on a saga, false unless it is an object -/
def onSaga (judge : Json → Bool) (saga : Operand) : Operand := .bool (saga.object?.any judge)

-- a sum starts at the zero of the core library, whatever else is in scope
attribute [local instance (2000)] Zero.ofOfNat0

/-- whether the completed compensation steps take back exactly what the completed steps moved, if there are any -/
def amountConserved (saga : Json) : Bool :=
  match saga.listAt? "steps", saga.listAt? "compensation_steps" with
  | some forward, some compensation =>
    match completedAmounts? forward, completedAmounts? compensation with
    | some moved, some returned => returned.isEmpty || moved.sum == returned.sum
    | _, _ => false
  | _, _ => false

/-- whether every step has an identifier and no two have the same -/
def stepsSequential (saga : Json) : Bool :=
  match saga.listAt? "steps" with
  | some steps => (steps.mapM fun step => Json.get? step "step_id").any distinct
  | none => false

/-- when a step started and when it was completed -/
def stepTimes? (step : Json) : Option (Instant × Instant) :=
  match instantAt? step "started_at", instantAt? step "completed_at" with
  | some started, some finished => some (started, finished)
  | _, _ => none

/-- whether a step took no negative time and no longer than the limit -/
def withinLimit (limit : Double) (times : Instant × Instant) : Bool :=
  !times.2.lt times.1 && !limit.lt (times.2.secondsSince times.1)

/-- the earliest start and the latest completion -/
def overallTimes? : List (Instant × Instant) → Option (Instant × Instant)
  | [] => none
  | t :: rest => some (rest.foldl (fun span t => (span.1.min t.1, span.2.max t.2)) t)

/-- Whether each completed step kept the limit for one step, and all of them together the limit in total, if there is
one. -/
def timeoutValid (saga : Json) : Bool :=
  match saga.get? "timeout", saga.listAt? "steps" with
  | some (.object limits), some steps =>
    match Json.numberAt? (.object limits) "per_step_seconds", (steps.filter isCompleted).mapM stepTimes? with
    | some perStep, some times =>
      times.all (withinLimit perStep) &&
      match Json.numberAt? (.object limits) "total_seconds", overallTimes? times with
      | some limit, some (first, last) => (last.secondsSince first).le limit
      | _, _ => true
    | _, _ => false
  | _, _ => false

def sagaAmountConserved : Operand → Operand := onSaga amountConserved

def sagaStepsSequential : Operand → Operand := onSaga stepsSequential

def sagaTimeoutValid : Operand → Operand := onSaga timeoutValid

end Proviso.Verdict
