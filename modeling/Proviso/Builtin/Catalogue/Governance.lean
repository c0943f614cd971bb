/-
Builtins on votes, policies, lifecycles and audit trails.
-/
import Proviso.Builtin.Entry
import Proviso.Verdict.AuditTrail

namespace Proviso.Catalogue

/-- builtins on votes, policies, lifecycles and audit trails -/
def governance : List Entry := [
  { builtin := .outcomeConsensusValid
    signature := "outcome_consensus_valid(outcome) -> boolean"
    description := "Outcome type agrees with the vote tally: unanimous has no dissent, majority meets " ++
      "consensus_threshold, deadlock misses it, escalation names escalated_to."
    examples := [
      ⟨"Valid unanimous outcome",
        .object [("outcome", .object [("outcome_type", .string "unanimous"), ("votes",
          .array [.object [("vote", .string "agree")], .object [("vote", .string "agree")]]),
          ("consensus_threshold", .decimal 10 1)])], "outcome_consensus_valid(outcome)", true⟩,
      ⟨"Unanimous with dissent",
        .object [("outcome", .object [("outcome_type", .string "unanimous"), ("votes",
          .array [.object [("vote", .string "agree")], .object [("vote", .string "disagree")]]),
          ("consensus_threshold", .decimal 10 1)])], "outcome_consensus_valid(outcome)", false⟩,
      ⟨"Majority meets threshold",
        .object [("outcome", .object [("outcome_type", .string "majority"), ("votes",
          .array [.object [("vote", .string "agree")], .object [("vote", .string "agree")], .object [("vote",
          .string "disagree")]]), ("consensus_threshold", .decimal 5 1)])], "outcome_consensus_valid(outcome)",
          true⟩,
      ⟨"Deadlock below threshold",
        .object [("outcome", .object [("outcome_type", .string "deadlock"), ("votes",
          .array [.object [("vote", .string "agree")], .object [("vote", .string "disagree")]]),
          ("consensus_threshold", .decimal 75 2)])], "outcome_consensus_valid(outcome)", true⟩,
      ⟨"Escalation without target",
        .object [("outcome", .object [("outcome_type", .string "escalation"), ("votes", .array []),
          ("consensus_threshold", .decimal 5 1)])], "outcome_consensus_valid(outcome)", false⟩] },
  { builtin := .monetaryPolicySolvent
    signature := "monetary_policy_solvent(policy, supply) -> boolean"
    description := "Supply does not exceed policy.conservation_ceiling."
    examples := [
      ⟨"Supply under ceiling",
        .object [("policy", .object [("conservation_ceiling", .string "1000000")]), ("supply",
          .string "999999")], "monetary_policy_solvent(policy, supply)", true⟩,
      ⟨"Supply over ceiling",
        .object [("policy", .object [("conservation_ceiling", .string "1000000")]), ("supply",
          .string "1000001")], "monetary_policy_solvent(policy, supply)", false⟩] },
  { builtin := .permissionBoundaryActive
    signature := "permission_boundary_active(boundary) -> boolean"
    description := "Boundary declares scope, permitted_if, reporting and revocation."
    examples := [
      ⟨"Complete boundary",
        .object [("boundary", .object [("scope", .string "billing"), ("permitted_if",
          .string "trust_scopes.scopes.billing == 'verified'"), ("reporting", .object [("required", .bool true),
          ("report_to", .string "audit-agent")]), ("revocation", .object [("trigger", .string "manual")])])],
          "permission_boundary_active(boundary)", true⟩,
      ⟨"Missing reporting",
        .object [("boundary", .object [("scope", .string "billing"), ("permitted_if", .string "true"),
          ("revocation", .object [("trigger", .string "manual")])])], "permission_boundary_active(boundary)",
          false⟩] },
  { builtin := .proposalQuorumMet
    signature := "proposal_quorum_met(proposal) -> boolean"
    description := "Sum of voting.votes_cast[].weight reaches voting.quorum_required."
    examples := [
      ⟨"Weighted votes meet quorum",
        .object [("proposal", .object [("voting", .object [("quorum_required", .decimal 5 1), ("votes_cast",
          .array [.object [("voter_id", .string "a"), ("vote", .string "approve"), ("weight", .decimal 3 1)],
          .object [("voter_id", .string "b"), ("vote", .string "reject"), ("weight", .decimal 3 1)]])])])],
          "proposal_quorum_met(proposal)", true⟩,
      ⟨"No votes cast",
        .object [("proposal", .object [("voting", .object [("quorum_required", .decimal 5 1), ("votes_cast",
          .array [])])])], "proposal_quorum_met(proposal)", false⟩] },
  { builtin := .proposalWeightsNormalized
    signature := "proposal_weights_normalized(proposal) -> boolean"
    description := "Vote weights sum to 1.0 within 0.001. No votes is vacuously normalized."
    examples := [
      ⟨"Weights sum to one",
        .object [("proposal", .object [("voting", .object [("votes_cast", .array [.object [("weight",
          .decimal 6 1)], .object [("weight", .decimal 4 1)]])])])], "proposal_weights_normalized(proposal)",
          true⟩,
      ⟨"Weights sum above one",
        .object [("proposal", .object [("voting", .object [("votes_cast", .array [.object [("weight",
          .decimal 6 1)], .object [("weight", .decimal 6 1)]])])])], "proposal_weights_normalized(proposal)",
          false⟩] },
  { builtin := .proposalExecutionValid
    signature := "proposal_execution_valid(execution) -> boolean"
    description := "Execution is completed and every applied change succeeded."
    examples := [
      ⟨"All changes succeeded",
        .object [("execution", .object [("status", .string "completed"), ("changes_applied",
          .array [.object [("result", .string "success")], .object [("result", .string "success")]])])],
          "proposal_execution_valid(execution)", true⟩,
      ⟨"One change failed",
        .object [("execution", .object [("status", .string "completed"), ("changes_applied",
          .array [.object [("result", .string "success")], .object [("result", .string "failed")]])])],
          "proposal_execution_valid(execution)", false⟩] },
  { builtin := .constraintLifecycleValid
    signature := "constraint_lifecycle_valid(event) -> boolean"
    description := "from_status -> to_status is a permitted constraint lifecycle transition."
    examples := [
      ⟨"Proposed to under review",
        .object [("event", .object [("from_status", .string "proposed"), ("to_status",
          .string "under_review")])], "constraint_lifecycle_valid(event)", true⟩,
      ⟨"Proposed straight to enacted",
        .object [("event", .object [("from_status", .string "proposed"), ("to_status", .string "enacted")])],
          "constraint_lifecycle_valid(event)", false⟩] },
  { builtin := .modelRoutingEligible
    signature := "model_routing_eligible(cohort, signal) -> boolean"
    description := "cohort.personal_score reaches signal.qualifying_score, and when both name a qualifying_state " ++
      "the cohort's is at least the signal's (cold < warming < established < authoritative)."
    examples := [
      ⟨"Score above threshold",
        .object [("cohort", .object [("personal_score", .decimal 8 1)]), ("signal",
          .object [("qualifying_score", .decimal 7 1)])], "model_routing_eligible(cohort, signal)", true⟩,
      ⟨"No personal score",
        .object [("cohort", .object [("personal_score", .null)]), ("signal", .object [("qualifying_score",
          .decimal 7 1)])], "model_routing_eligible(cohort, signal)", false⟩,
      ⟨"State below requirement",
        .object [("cohort", .object [("personal_score", .decimal 9 1), ("qualifying_state",
          .string "warming")]), ("signal", .object [("qualifying_score", .decimal 7 1), ("qualifying_state",
          .string "established")])], "model_routing_eligible(cohort, signal)", false⟩] },
  { builtin := .basketWeightsNormalized
    signature := "basket_weights_normalized(basket) -> boolean"
    description := "Basket entries are non-empty and their weights sum to 1.0 within 0.001."
    examples := [
      ⟨"Normalized weights",
        .object [("this", .object [("entries", .array [.object [("model_id", .string "a"), ("weight",
          .decimal 6 1)], .object [("model_id", .string "b"), ("weight", .decimal 4 1)]])])],
          "basket_weights_normalized(this)", true⟩,
      ⟨"Empty basket",
        .object [("this", .object [("entries", .array [])])], "basket_weights_normalized(this)", false⟩] },
  { builtin := .executionCheckpointValid
    signature := "execution_checkpoint_valid(checkpoint) -> boolean"
    description := "proceed_decision is allowed for health_status: healthy continues, degraded continues or " ++
      "pauses, failing rolls back."
    examples := [
      ⟨"Healthy continues",
        .object [("cp", .object [("health_status", .string "healthy"), ("proceed_decision",
          .string "continue")])], "execution_checkpoint_valid(cp)", true⟩,
      ⟨"Healthy pauses",
        .object [("cp", .object [("health_status", .string "healthy"), ("proceed_decision",
          .string "pause")])], "execution_checkpoint_valid(cp)", false⟩,
      ⟨"Failing rolls back",
        .object [("cp", .object [("health_status", .string "failing"), ("proceed_decision",
          .string "rollback")])], "execution_checkpoint_valid(cp)", true⟩] },
  { builtin := .auditTrailChainValid
    signature := "audit_trail_chain_valid(trail) -> boolean"
    description := "Entries link by hash: the first previous_hash is the genesis constant and every later " ++
      "previous_hash equals the prior entry_hash. Content hashes are not recomputed."
    examples := [
      ⟨"Correctly linked chain",
        .object [("trail", .object [("genesis_hash", .string Verdict.genesisHash), ("entries",
          .array [.object [("entry_id", .string "e1"), ("previous_hash", .string Verdict.genesisHash),
          ("entry_hash", .string "sha256:aaa")], .object [("entry_id", .string "e2"), ("previous_hash",
          .string "sha256:aaa"), ("entry_hash", .string "sha256:bbb")]])])], "audit_trail_chain_valid(trail)",
          true⟩,
      ⟨"Broken link",
        .object [("trail", .object [("genesis_hash", .string Verdict.genesisHash), ("entries",
          .array [.object [("entry_id", .string "e1"), ("previous_hash", .string Verdict.genesisHash),
          ("entry_hash", .string "sha256:aaa")], .object [("entry_id", .string "e2"), ("previous_hash",
          .string "sha256:zzz"), ("entry_hash", .string "sha256:bbb")]])])], "audit_trail_chain_valid(trail)",
          false⟩,
      ⟨"Empty trail",
        .object [("trail", .object [("genesis_hash", .string Verdict.genesisHash), ("entries", .array [])])],
          "audit_trail_chain_valid(trail)", true⟩] }]

end Proviso.Catalogue
