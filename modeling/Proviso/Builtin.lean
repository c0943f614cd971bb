/-
Builtins: the functions that an expression may call, by name and with a fixed range of argument counts.
-/

namespace Proviso

/-- the functions of the language -/
inductive Builtin where
  | bigintSum | bigintGte | bigintGt | bigintEq | bigintSub | bigintAdd | isBigintCoercible
  | eq | objectKeysSubset | len | typeOf | uniqueValues
  | allLinksSubsetAuthority | delegationBudgetConserved | linksTemporallyOrdered | linksFormChain
  | noEmergentInIndividual | allEmergentHaveEvidence
  | changed | previous | delta
  | isAfter | isBefore | isBetween | isStale | isWithin | now
  | treeBudgetConserved | treeAuthorityNarrowing
  | sagaAmountConserved | sagaStepsSequential | sagaTimeoutValid
  | outcomeConsensusValid | monetaryPolicySolvent | permissionBoundaryActive
  | proposalQuorumMet | proposalWeightsNormalized | proposalExecutionValid
  | constraintLifecycleValid | modelRoutingEligible | basketWeightsNormalized | executionCheckpointValid
  | auditTrailChainValid
  deriving DecidableEq, Repr

namespace Builtin

/-- every builtin -/
def all : List Builtin :=
  [.bigintSum, .bigintGte, .bigintGt, .bigintEq, .bigintSub, .bigintAdd, .isBigintCoercible,
    .eq, .objectKeysSubset, .len, .typeOf, .uniqueValues,
    .allLinksSubsetAuthority, .delegationBudgetConserved, .linksTemporallyOrdered, .linksFormChain,
    .noEmergentInIndividual, .allEmergentHaveEvidence,
    .changed, .previous, .delta,
    .isAfter, .isBefore, .isBetween, .isStale, .isWithin, .now,
    .treeBudgetConserved, .treeAuthorityNarrowing,
    .sagaAmountConserved, .sagaStepsSequential, .sagaTimeoutValid,
    .outcomeConsensusValid, .monetaryPolicySolvent, .permissionBoundaryActive,
    .proposalQuorumMet, .proposalWeightsNormalized, .proposalExecutionValid,
    .constraintLifecycleValid, .modelRoutingEligible, .basketWeightsNormalized, .executionCheckpointValid,
    .auditTrailChainValid]

/-- the name by which an expression calls it -/
def name : Builtin → String
  | .bigintSum => "bigint_sum"
  | .bigintGte => "bigint_gte"
  | .bigintGt => "bigint_gt"
  | .bigintEq => "bigint_eq"
  | .bigintSub => "bigint_sub"
  | .bigintAdd => "bigint_add"
  | .isBigintCoercible => "is_bigint_coercible"
  | .eq => "eq"
  | .objectKeysSubset => "object_keys_subset"
  | .len => "len"
  | .typeOf => "type_of"
  | .uniqueValues => "unique_values"
  | .allLinksSubsetAuthority => "all_links_subset_authority"
  | .delegationBudgetConserved => "delegation_budget_conserved"
  | .linksTemporallyOrdered => "links_temporally_ordered"
  | .linksFormChain => "links_form_chain"
  | .noEmergentInIndividual => "no_emergent_in_individual"
  | .allEmergentHaveEvidence => "all_emergent_have_evidence"
  | .changed => "changed"
  | .previous => "previous"
  | .delta => "delta"
  | .isAfter => "is_after"
  | .isBefore => "is_before"
  | .isBetween => "is_between"
  | .isStale => "is_stale"
  | .isWithin => "is_within"
  | .now => "now"
  | .treeBudgetConserved => "tree_budget_conserved"
  | .treeAuthorityNarrowing => "tree_authority_narrowing"
  | .sagaAmountConserved => "saga_amount_conserved"
  | .sagaStepsSequential => "saga_steps_sequential"
  | .sagaTimeoutValid => "saga_timeout_valid"
  | .outcomeConsensusValid => "outcome_consensus_valid"
  | .monetaryPolicySolvent => "monetary_policy_solvent"
  | .permissionBoundaryActive => "permission_boundary_active"
  | .proposalQuorumMet => "proposal_quorum_met"
  | .proposalWeightsNormalized => "proposal_weights_normalized"
  | .proposalExecutionValid => "proposal_execution_valid"
  | .constraintLifecycleValid => "constraint_lifecycle_valid"
  | .modelRoutingEligible => "model_routing_eligible"
  | .basketWeightsNormalized => "basket_weights_normalized"
  | .executionCheckpointValid => "execution_checkpoint_valid"
  | .auditTrailChainValid => "audit_trail_chain_valid"

/-- the builtin of that name -/
def ofName? (name : String) : Option Builtin := all.find? (·.name = name)

/-- the fewest arguments it takes -/
def leastArgs : Builtin → Nat
  | .now => 0
  | .isBetween | .isStale | .isWithin => 3
  | .bigintGte | .bigintGt | .bigintEq | .bigintSub | .bigintAdd | .eq | .objectKeysSubset | .uniqueValues
  | .noEmergentInIndividual | .allEmergentHaveEvidence | .isAfter | .isBefore | .monetaryPolicySolvent
  | .modelRoutingEligible => 2
  | _ => 1

/-- the most arguments it takes: only the sum has a choice -/
def mostArgs : Builtin → Nat
  | .bigintSum => 2
  | f => f.leastArgs

/-- whether it may be called with `n` arguments -/
def accepts (f : Builtin) (n : Nat) : Bool := f.leastArgs ≤ n && n ≤ f.mostArgs

/-- the names in order -/
def names : List String := (all.map name).mergeSort (· ≤ ·)

theorem mem_all (f : Builtin) : f ∈ all := by cases f <;> decide

theorem ofName?_name (f : Builtin) : ofName? f.name = some f := by
  have hall : ∀ f ∈ all, ofName? f.name = some f := by decide +kernel
  exact hall f f.mem_all

end Builtin

/-- the words that have a meaning of their own in expressions -/
def keywords : List String := ["true", "false", "null", "undefined", "every", "length"]

/-- the names that are taken: builtins and keywords, in order -/
def reservedNames : List String := (Builtin.all.map Builtin.name ++ keywords).mergeSort (· ≤ ·)

end Proviso
