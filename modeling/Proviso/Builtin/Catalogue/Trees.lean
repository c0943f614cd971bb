/-
Builtins on delegation trees and on sagas.
-/
import Proviso.Builtin.Entry

namespace Proviso.Catalogue

/-- builtins on delegation trees and on sagas -/
def trees : List Entry := [
  { builtin := .treeBudgetConserved
    signature := "tree_budget_conserved(node) -> boolean"
    description := "At every level the children's budget_allocated_micro sum does not exceed the parent's. Leaves " ++
      "pass, a null root is vacuously true, trees deeper than 10 levels fail."
    examples := [
      ⟨"Children within parent budget",
        .object [("root", .object [("budget_allocated_micro", .string "1000"), ("children",
          .array [.object [("budget_allocated_micro", .string "600")], .object [("budget_allocated_micro",
          .string "400")]])])], "tree_budget_conserved(root)", true⟩,
      ⟨"Children overspend",
        .object [("root", .object [("budget_allocated_micro", .string "1000"), ("children",
          .array [.object [("budget_allocated_micro", .string "600")], .object [("budget_allocated_micro",
          .string "600")]])])], "tree_budget_conserved(root)", false⟩,
      ⟨"Null root", .object [("root", .null)], "tree_budget_conserved(root)", true⟩] },
  { builtin := .treeAuthorityNarrowing
    signature := "tree_authority_narrowing(node) -> boolean"
    description := "Each child's authority_scope is a case-insensitive subset of its parent's. An empty child " ++
      "scope always passes."
    examples := [
      ⟨"Valid narrowing",
        .object [("root", .object [("authority_scope", .array [.string "billing", .string "inference"]),
          ("children", .array [.object [("authority_scope", .array [.string "billing"]), ("children",
          .array [])]])])], "tree_authority_narrowing(root)", true⟩,
      ⟨"Widening authority",
        .object [("root", .object [("authority_scope", .array [.string "billing"]), ("children",
          .array [.object [("authority_scope", .array [.string "billing", .string "delegation"])]])])],
          "tree_authority_narrowing(root)", false⟩,
      ⟨"Case is ignored",
        .object [("root", .object [("authority_scope", .array [.string "Billing", .string "INFERENCE"]),
          ("children", .array [.object [("authority_scope", .array [.string "billing",
          .string "inference"])]])])], "tree_authority_narrowing(root)", true⟩] },
  { builtin := .sagaAmountConserved
    signature := "saga_amount_conserved(saga) -> boolean"
    description := "Completed compensation steps must exactly reverse completed forward steps (sums of " ++
      "amount_micro). A saga with no completed compensation is vacuously conserved; pending steps are ignored."
    examples := [
      ⟨"Compensation restores balance",
        .object [("saga", .object [("steps", .array [.object [("step_id", .string "s1"), ("status",
          .string "completed"), ("amount_micro", .string "1000")]]), ("compensation_steps",
          .array [.object [("step_id", .string "c1"), ("status", .string "completed"), ("amount_micro",
          .string "1000")]])])], "saga_amount_conserved(saga)", true⟩,
      ⟨"Partial compensation",
        .object [("saga", .object [("steps", .array [.object [("step_id", .string "s1"), ("status",
          .string "completed"), ("amount_micro", .string "1000")]]), ("compensation_steps",
          .array [.object [("step_id", .string "c1"), ("status", .string "completed"), ("amount_micro",
          .string "400")]])])], "saga_amount_conserved(saga)", false⟩,
      ⟨"Pending steps are ignored",
        .object [("saga", .object [("steps", .array [.object [("step_id", .string "s1"), ("status",
          .string "completed"), ("amount_micro", .string "1000")], .object [("step_id", .string "s2"),
          ("status", .string "pending"), ("amount_micro", .string "9999999")]]), ("compensation_steps",
          .array [])])], "saga_amount_conserved(saga)", true⟩] },
  { builtin := .sagaStepsSequential
    signature := "saga_steps_sequential(saga) -> boolean"
    description := "All step_id values across the saga's steps are pairwise distinct."
    examples := [
      ⟨"Distinct step ids",
        .object [("saga", .object [("steps", .array [.object [("step_id", .string "s1")], .object [("step_id",
          .string "s2")]])])], "saga_steps_sequential(saga)", true⟩,
      ⟨"Duplicate step ids",
        .object [("saga", .object [("steps", .array [.object [("step_id", .string "s1")], .object [("step_id",
          .string "s1")]])])], "saga_steps_sequential(saga)", false⟩] },
  { builtin := .sagaTimeoutValid
    signature := "saga_timeout_valid(saga) -> boolean"
    description := "Completed steps ran within timeout.per_step_seconds, and the saga within " ++
      "timeout.total_seconds. Pending steps are skipped."
    examples := [
      ⟨"Step within its timeout",
        .object [("saga", .object [("timeout", .object [("total_seconds", .ofInt 300), ("per_step_seconds",
          .ofInt 60)]), ("steps", .array [.object [("step_id", .string "s1"), ("status", .string "completed"),
          ("started_at", .string "2026-01-01T00:00:00Z"), ("completed_at",
          .string "2026-01-01T00:00:30Z")]])])], "saga_timeout_valid(saga)", true⟩,
      ⟨"Step exceeds its timeout",
        .object [("saga", .object [("timeout", .object [("total_seconds", .ofInt 300), ("per_step_seconds",
          .ofInt 60)]), ("steps", .array [.object [("step_id", .string "s1"), ("status", .string "completed"),
          ("started_at", .string "2026-01-01T00:00:00Z"), ("completed_at",
          .string "2026-01-01T00:02:00Z")]])])], "saga_timeout_valid(saga)", false⟩,
      ⟨"Missing timeout configuration",
        .object [("saga", .object [("steps", .array [])])], "saga_timeout_valid(saga)", false⟩] }]

end Proviso.Catalogue
