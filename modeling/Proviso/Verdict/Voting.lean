/-
Verdicts on votes and weights. Weights are doubles, added from left to right.
-/
import Proviso.Operand

namespace Proviso.Verdict

/-- how far a sum of weights may lie from one -/
def weightTolerance : Double := .ofDecimal false 1 (-3)

/-- how many votes say this -/
def votesSaying (votes : List Json) (what : String) : Nat :=
  (votes.filter fun v => v.stringAt? "vote" == some what).length

/-- the share of the votes that agree; zero without votes -/
def agreement (votes : List Json) : Double :=
  if votes.isEmpty then .zero false
  else (Double.ofInt (votesSaying votes "agree")).div (.ofInt votes.length)

/-- Whether the kind of an outcome agrees with its votes: a unanimous one has no dissent, a majority reaches the
threshold, a deadlock misses it, and an escalation names whom it went to. -/
def consensusValid (outcome : Json) : Bool :=
  match outcome.listAt? "votes" with
  | none => false
  | some votes =>
    let threshold := outcome.numberAt? "consensus_threshold"
    match outcome.stringAt? "outcome_type" with
    | some "unanimous" => votesSaying votes "disagree" == 0
    | some "majority" => threshold.any fun t => t.le (agreement votes)
    | some "deadlock" => threshold.any fun t => (agreement votes).lt t
    | some "escalation" => (outcome.stringAt? "escalated_to").any (· ≠ "")
    | _ => false

def outcomeConsensusValid (outcome : Operand) : Operand := .bool (outcome.object?.any consensusValid)

/-- the weights of some records, when each has one -/
def weights? (records : List Json) : Option (List Double) := records.mapM (·.numberAt? "weight")

/-- the weights of the votes cast on a proposal -/
def voteWeights? (proposal : Operand) : Option (List Double) := do
  let voting ← (← proposal.object?).get? "voting"
  weights? (← (← voting.get? "votes_cast").array?)

/-- whether weights add up to one, within the tolerance -/
def normalized (weights : List Double) : Bool :=
  ((Double.sum weights).sub (.ofInt 1)).abs.le weightTolerance

/-- whether there are votes and their weights reach the quorum -/
def proposalQuorumMet (proposal : Operand) : Operand :=
  let quorum := (proposal.object?.bind (·.get? "voting")).bind (·.numberAt? "quorum_required")
  match voteWeights? proposal, quorum with
  | some weights, some quorum => .bool (!weights.isEmpty && quorum.le (Double.sum weights))
  | _, _ => .no

/-- whether the weights of the votes add up to one; without votes they do -/
def proposalWeightsNormalized (proposal : Operand) : Operand :=
  match voteWeights? proposal with
  | some weights => .bool (weights.isEmpty || normalized weights)
  | none => .no

/-- whether there are entries and their weights add up to one -/
def basketWeightsNormalized (basket : Operand) : Operand :=
  match (basket.object?.bind (·.get? "entries")).bind Json.array? with
  | some (e :: entries) => .bool ((weights? (e :: entries)).any normalized)
  | _ => .no

end Proviso.Verdict
