/-
Evaluating an expression.

Evaluation is total: whatever the record looks like, an expression has an operand, and it holds when that operand is
truthy. Names bound by `.every` come before the fields of the record, the innermost first. The builtins that look at
the earlier state of the record take the path that is written as their argument; that path is followed in the earlier
state from its top, and now with the bindings.
-/
import Proviso.Expr
import Proviso.Syntax
import Proviso.Operand.Order
import Proviso.Verdict.Amount
import Proviso.Verdict.Shape
import Proviso.Verdict.Delegation
import Proviso.Verdict.Capability
import Proviso.Verdict.History
import Proviso.Verdict.Timing
import Proviso.Verdict.Saga
import Proviso.Verdict.Voting
import Proviso.Verdict.Lifecycle
import Proviso.Verdict.AuditTrail

namespace Proviso

/-- what an expression is evaluated in: a record, options, the time, and the names bound so far, innermost first -/
structure Env where
  context : Json
  options : Options
  clock : Instant
  bindings : Record := []

namespace Env

/-- the environment with one more name bound -/
def bind (env : Env) (name : String) (v : Json) : Env := { env with bindings := env.bindings.set name v }

/-- the value that a path names: from a bound name, or else from the record -/
def resolve (env : Env) (p : Path) : Option Json :=
  match env.bindings.get? p.root with
  | some v => v.walk p.rest
  | none => env.context.resolve p

/-- the value of a path in the earlier state of the record: `none` when there is no such state -/
def before (env : Env) (p : Path) : Option (Option Json) := env.context.previous?.map (·.resolve p)

end Env

/-- The operand of a call. `path` is the first argument when it is a field path, and `args` are the operands of all of
them; an argument that is not given is absent. -/
def Builtin.apply (env : Env) (f : Builtin) (path : Option Path) (args : List Operand) : Operand :=
  let arg (i : Nat) : Operand := args[i]?.getD .absent
  match f with
  | .bigintSum => Verdict.bigintSum (arg 0) args[1]?
  | .bigintGte => Verdict.bigintGte (arg 0) (arg 1)
  | .bigintGt => Verdict.bigintGt (arg 0) (arg 1)
  | .bigintEq => Verdict.bigintEq (arg 0) (arg 1)
  | .bigintSub => Verdict.bigintSub (arg 0) (arg 1)
  | .bigintAdd => Verdict.bigintAdd (arg 0) (arg 1)
  | .isBigintCoercible => Verdict.isBigintCoercible (arg 0)
  | .eq => .bool ((arg 0).equals env.options.absentEqualsNull (arg 1))
  | .objectKeysSubset => Verdict.objectKeysSubset (arg 0) (arg 1)
  | .len => Verdict.len (arg 0)
  | .typeOf => .string (arg 0).typeName
  | .uniqueValues => Verdict.uniqueValues (arg 0) (arg 1)
  | .allLinksSubsetAuthority => Verdict.allLinksSubsetAuthority (arg 0)
  | .delegationBudgetConserved => Verdict.delegationBudgetConserved (arg 0)
  | .linksTemporallyOrdered => Verdict.linksTemporallyOrdered (arg 0)
  | .linksFormChain => Verdict.linksFormChain (arg 0)
  | .noEmergentInIndividual => Verdict.noEmergentInIndividual (arg 0) (arg 1)
  | .allEmergentHaveEvidence => Verdict.allEmergentHaveEvidence (arg 0) (arg 1)
  | .changed => (path.map fun p => Verdict.changed (env.before p) (env.resolve p)).getD .no
  | .previous => (path.map fun p => Verdict.previous (env.before p)).getD .no
  | .delta => (path.map fun p => Verdict.delta (env.before p) (env.resolve p)).getD .no
  | .isAfter => Verdict.isAfter (arg 0) (arg 1)
  | .isBefore => Verdict.isBefore (arg 0) (arg 1)
  | .isBetween => Verdict.isBetween (arg 0) (arg 1) (arg 2)
  | .isStale => Verdict.isStale (arg 0) (arg 1) (arg 2)
  | .isWithin => Verdict.isWithin (arg 0) (arg 1) (arg 2)
  | .now => Verdict.now env.options env.clock
  | .treeBudgetConserved => Verdict.treeBudgetConserved (arg 0)
  | .treeAuthorityNarrowing => Verdict.treeAuthorityNarrowing (arg 0)
  | .sagaAmountConserved => Verdict.sagaAmountConserved (arg 0)
  | .sagaStepsSequential => Verdict.sagaStepsSequential (arg 0)
  | .sagaTimeoutValid => Verdict.sagaTimeoutValid (arg 0)
  | .outcomeConsensusValid => Verdict.outcomeConsensusValid (arg 0)
  | .monetaryPolicySolvent => Verdict.monetaryPolicySolvent (arg 0) (arg 1)
  | .permissionBoundaryActive => Verdict.permissionBoundaryActive (arg 0)
  | .proposalQuorumMet => Verdict.proposalQuorumMet (arg 0)
  | .proposalWeightsNormalized => Verdict.proposalWeightsNormalized (arg 0)
  | .proposalExecutionValid => Verdict.proposalExecutionValid (arg 0)
  | .constraintLifecycleValid => Verdict.constraintLifecycleValid (arg 0)
  | .modelRoutingEligible => Verdict.modelRoutingEligible (arg 0) (arg 1)
  | .basketWeightsNormalized => Verdict.basketWeightsNormalized (arg 0)
  | .executionCheckpointValid => Verdict.executionCheckpointValid (arg 0)
  | .auditTrailChainValid => Verdict.auditTrailChainValid (arg 0)

/-- the operand of a literal -/
def Literal.operand : Literal → Operand
  | .string s => .string s
  | .int n => .int n
  | .float x => .double x
  | .bool b => .bool b
  | .null => .json .null
  | .undefined => .absent

/-- whether an operator holds between two operands -/
def BinaryOp.holds (options : Options) (op : BinaryOp) (a b : Operand) : Bool :=
  match op with
  | .and => a.isTruthy && b.isTruthy
  | .or => a.isTruthy || b.isTruthy
  | .implies => !a.isTruthy || b.isTruthy
  | .eq => a.equals options.absentEqualsNull b
  | .ne => !a.equals options.absentEqualsNull b
  | .lt => a.related (· == .lt) b
  | .le => a.related (· != .gt) b
  | .gt => a.related (· == .gt) b
  | .ge => a.related (· != .lt) b

namespace Expr

mutual

/-- the operand of an expression in an environment -/
def eval (env : Env) : Expr → Operand
  | .literal l => l.operand
  | .field p => .ofOption (env.resolve p)
  | .call f args => f.apply env (args.head?.bind path?) (evalItems env args)
  | .array items => .list (evalItems env items)
  | .not e => .bool (!(e.eval env).isTruthy)
  | .binary op left right => .bool (op.holds env.options (left.eval env) (right.eval env))
  | .length e => .count (e.eval env).length
  | .every p param body =>
    match env.resolve p with
    | some (.array items) => .bool (items.all fun v => (body.eval (env.bind param v)).isTruthy)
    | _ => .bool false

/-- the operands of expressions in turn -/
def evalItems (env : Env) : List Expr → List Operand
  | [] => []
  | e :: rest => e.eval env :: evalItems env rest

end

theorem evalItems_eq_map (env : Env) (es : List Expr) : evalItems env es = es.map (eval env) := by
  induction es with
  | nil => rfl
  | cons e rest ih => simp [evalItems, ih]

/-- whether an expression holds in an environment -/
def holds (env : Env) (e : Expr) : Bool := (e.eval env).isTruthy

end Expr

/-- Whether a record meets the constraint that a text denotes. Only a malformed text is an error. -/
def meets (options : Options) (clock : Instant) (context : Json) (text : String) : Except SyntaxError Bool :=
  match Expr.ofText? text with
  | .error e => .error e
  | .ok e => .ok (e.holds { context, options, clock })

end Proviso
