/-
Builtins on the shape of values, on chains of links, and on emergent capabilities.
-/
import Proviso.Builtin.Entry

namespace Proviso.Catalogue

/-- builtins on the shape of values, on chains of links, and on emergent capabilities -/
def shapes : List Entry := [
  { builtin := .eq
    signature := "eq(a, b) -> boolean"
    description := "Deep equality with the same rules as ==."
    examples := [
      ⟨"Equal strings", .object [("status", .string "active")], "eq(status, 'active')", true⟩,
      ⟨"Different strings", .object [("status", .string "active")], "eq(status, 'expired')", false⟩,
      ⟨"Missing field is not null", .object [], "eq(missing, null)", false⟩] },
  { builtin := .objectKeysSubset
    signature := "object_keys_subset(record, allowed) -> boolean"
    description := "True when every key of record appears in allowed. A null record is vacuously true."
    examples := [
      ⟨"All keys in allowed list",
        .object [("rec", .object [("a", .ofInt 1), ("b", .ofInt 2)]), ("allowed", .array [.string "a",
          .string "b", .string "c"])], "object_keys_subset(rec, allowed)", true⟩,
      ⟨"Key not in allowed list",
        .object [("rec", .object [("a", .ofInt 1), ("d", .ofInt 2)]), ("allowed", .array [.string "a",
          .string "b", .string "c"])], "object_keys_subset(rec, allowed)", false⟩,
      ⟨"Allowed keys as literal",
        .object [("rec", .object [("a", .ofInt 1)])], "object_keys_subset(rec, ['a'])", true⟩] },
  { builtin := .len
    signature := "len(value) -> number"
    description := "Length of an array, key count of an object or character count of a string; 0 otherwise."
    examples := [
      ⟨"Array length", .object [("items", .array [.string "a", .string "b", .string "c"])], "len(items) == 3", true⟩,
      ⟨"Object key count", .object [("rec", .object [("x", .ofInt 1), ("y", .ofInt 2)])], "len(rec) == 2", true⟩,
      ⟨"String length", .object [("name", .string "hello")], "len(name) == 5", true⟩,
      ⟨"Numbers have no length", .object [("n", .ofInt 12)], "len(n) == 0", true⟩] },
  { builtin := .typeOf
    signature := "type_of(value) -> string"
    description := "Type name: string, number, boolean, array, object, null, undefined or bigint."
    examples := [
      ⟨"String", .object [("v", .string "x")], "type_of(v) == 'string'", true⟩,
      ⟨"Missing field", .object [], "type_of(v) == 'undefined'", true⟩,
      ⟨"Null", .object [("v", .null)], "type_of(v) == 'null'", true⟩] },
  { builtin := .uniqueValues
    signature := "unique_values(array, field) -> boolean"
    description := "True when the named field is pairwise distinct across records. Records without the field are " ++
      "skipped."
    examples := [
      ⟨"Distinct identifiers",
        .object [("steps", .array [.object [("id", .string "a")], .object [("id", .string "b")]])],
          "unique_values(steps, 'id')", true⟩,
      ⟨"Repeated identifier",
        .object [("steps", .array [.object [("id", .string "a")], .object [("id", .string "a")]])],
          "unique_values(steps, 'id')", false⟩] },
  { builtin := .allLinksSubsetAuthority
    signature := "all_links_subset_authority(links) -> boolean"
    description := "For i > 0: links[i].authority_scope is a subset of links[i-1].authority_scope."
    examples := [
      ⟨"Child has subset of parent authority",
        .object [("links", .array [.object [("authority_scope", .array [.string "read", .string "write"])],
          .object [("authority_scope", .array [.string "read"])]])], "all_links_subset_authority(links)", true⟩,
      ⟨"Child has authority not in parent",
        .object [("links", .array [.object [("authority_scope", .array [.string "read"])],
          .object [("authority_scope", .array [.string "read", .string "write"])]])],
          "all_links_subset_authority(links)", false⟩] },
  { builtin := .delegationBudgetConserved
    signature := "delegation_budget_conserved(links) -> boolean"
    description := "Each link's budget_allocated_micro is at most its predecessor's. Null budgets are skipped."
    examples := [
      ⟨"Budget decreases down chain",
        .object [("links", .array [.object [("budget_allocated_micro", .string "1000")],
          .object [("budget_allocated_micro", .string "500")]])], "delegation_budget_conserved(links)", true⟩,
      ⟨"Child exceeds parent budget",
        .object [("links", .array [.object [("budget_allocated_micro", .string "500")],
          .object [("budget_allocated_micro", .string "1000")]])], "delegation_budget_conserved(links)", false⟩] },
  { builtin := .linksTemporallyOrdered
    signature := "links_temporally_ordered(links) -> boolean"
    description := "links[i].timestamp <= links[i+1].timestamp for all adjacent pairs."
    examples := [
      ⟨"Timestamps are ordered",
        .object [("links", .array [.object [("timestamp", .string "2026-01-01T00:00:00Z")],
          .object [("timestamp", .string "2026-01-02T00:00:00Z")]])], "links_temporally_ordered(links)", true⟩,
      ⟨"Timestamps are reversed",
        .object [("links", .array [.object [("timestamp", .string "2026-01-02T00:00:00Z")],
          .object [("timestamp", .string "2026-01-01T00:00:00Z")]])], "links_temporally_ordered(links)", false⟩] },
  { builtin := .linksFormChain
    signature := "links_form_chain(links) -> boolean"
    description := "links[i].delegatee == links[i+1].delegator for all adjacent pairs."
    examples := [
      ⟨"Chain forms correctly",
        .object [("links", .array [.object [("delegatee", .string "B")], .object [("delegator", .string "B"),
          ("delegatee", .string "C")]])], "links_form_chain(links)", true⟩,
      ⟨"Chain is broken",
        .object [("links", .array [.object [("delegatee", .string "B")], .object [("delegator", .string "X"),
          ("delegatee", .string "C")]])], "links_form_chain(links)", false⟩] },
  { builtin := .noEmergentInIndividual
    signature := "no_emergent_in_individual(emergent, individual) -> boolean"
    description := "No emergent capability appears in any array value of individual."
    examples := [
      ⟨"Emergent capability not in any individual",
        .object [("emergent", .array [.string "consensus"]), ("individual", .object [("m1",
          .array [.string "reasoning"]), ("m2", .array [.string "coding"])])],
          "no_emergent_in_individual(emergent, individual)", true⟩,
      ⟨"Emergent capability found in individual",
        .object [("emergent", .array [.string "reasoning"]), ("individual", .object [("m1",
          .array [.string "reasoning"]), ("m2", .array [.string "coding"])])],
          "no_emergent_in_individual(emergent, individual)", false⟩] },
  { builtin := .allEmergentHaveEvidence
    signature := "all_emergent_have_evidence(emergent, evidence) -> boolean"
    description := "Every emergent capability has an evidence record with a matching capability."
    examples := [
      ⟨"All emergent capabilities have evidence",
        .object [("emergent", .array [.string "consensus"]), ("evidence", .array [.object [("capability",
          .string "consensus"), ("test_name", .string "test-1"), ("score", .decimal 9 1)]])],
          "all_emergent_have_evidence(emergent, evidence)", true⟩,
      ⟨"Missing evidence for emergent capability",
        .object [("emergent", .array [.string "consensus", .string "synthesis"]), ("evidence",
          .array [.object [("capability", .string "consensus"), ("test_name", .string "test-1"), ("score",
          .decimal 9 1)]])], "all_emergent_have_evidence(emergent, evidence)", false⟩] }]

end Proviso.Catalogue
