/-
Verdicts on policies and on the stages that things pass through.
-/
import Proviso.Operand

namespace Proviso.Verdict

/-- whether the supply stays under the ceiling of the policy -/
def monetaryPolicySolvent (policy supply : Operand) : Operand :=
  match policy.object?.bind (·.intAt? "conservation_ceiling"), supply.toInt? with
  | some ceiling, some supply => .bool (supply ≤ ceiling)
  | _, _ => .no

/-- whether a field is there and not null -/
def present (v : Json) (key : String) : Bool := (v.get? key).any fun field => !field.isNull

/-- whether a boundary has a scope, a condition, a report and a revocation -/
def boundaryActive (boundary : Json) : Bool :=
  (boundary.stringAt? "scope").any (· ≠ "") && present boundary "permitted_if" && present boundary "reporting"
    && present boundary "revocation"

def permissionBoundaryActive (boundary : Operand) : Operand := .bool (boundary.object?.any boundaryActive)

/-- whether an execution is completed, and changes were made and all succeeded -/
def executionValid (execution : Json) : Bool :=
  execution.stringAt? "status" == some "completed" &&
  match (execution.get? "changes_applied").bind Json.array? with
  | some (c :: changes) => (c :: changes).all fun c => c.stringAt? "result" == some "success"
  | _ => false

def proposalExecutionValid (execution : Operand) : Operand := .bool (execution.object?.any executionValid)

/-- the moves that the life of a constraint allows -/
def lifecycleMoves : List (String × String) :=
  [("proposed", "under_review"), ("proposed", "rejected"), ("under_review", "enacted"), ("under_review", "rejected"),
    ("enacted", "deprecated")]

/-- whether an event is an allowed move -/
def lifecycleValid (event : Json) : Bool :=
  match event.stringAt? "from_status", event.stringAt? "to_status" with
  | some source, some target => lifecycleMoves.contains (source, target)
  | _, _ => false

def constraintLifecycleValid (event : Operand) : Operand := .bool (event.object?.any lifecycleValid)

/-- the states of a cohort, the lowest first -/
def qualifyingStates : List String := ["cold", "warming", "established", "authoritative"]

/-- whether the first state is known and at least the second, which is known too -/
def stateReached (reached need : String) : Bool :=
  match qualifyingStates.idxOf? reached, qualifyingStates.idxOf? need with
  | some i, some j => j ≤ i
  | _, _ => false

/-- Whether a cohort reaches the score that a signal asks for and, when both name one, its state. -/
def routingEligible (cohort signal : Json) : Bool :=
  match cohort.numberAt? "personal_score", signal.numberAt? "qualifying_score" with
  | some score, some required =>
    required.le score &&
    match cohort.stringAt? "qualifying_state", signal.stringAt? "qualifying_state" with
    | some reached, some need => stateReached reached need
    | _, _ => true
  | _, _ => false

def modelRoutingEligible (cohort signal : Operand) : Operand :=
  match cohort.object?, signal.object? with
  | some cohort, some signal => .bool (routingEligible cohort signal)
  | _, _ => .no

/-- the decisions that a state of health allows -/
def decisionsFor : String → List String
  | "healthy" => ["continue"]
  | "degraded" => ["continue", "pause"]
  | "failing" => ["rollback"]
  | _ => []

/-- whether the decision at a checkpoint is one that its state of health allows -/
def checkpointValid (checkpoint : Json) : Bool :=
  match checkpoint.stringAt? "health_status", checkpoint.stringAt? "proceed_decision" with
  | some health, some decision => (decisionsFor health).contains decision
  | _, _ => false

def executionCheckpointValid (checkpoint : Operand) : Operand := .bool (checkpoint.object?.any checkpointValid)

end Proviso.Verdict
