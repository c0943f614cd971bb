/-
Builtins on the earlier state of a record and on timestamps.
-/
import Proviso.Builtin.Entry

namespace Proviso.Catalogue

/-- builtins on the earlier state of a record and on timestamps -/
def times : List Entry := [
  { builtin := .changed
    signature := "changed(field) -> boolean"
    description := "True when the field differs from the same field in _previous. False without _previous."
    examples := [
      ⟨"Field changed",
        .object [("status", .string "active"), ("_previous", .object [("status", .string "pending")])],
          "changed(status)", true⟩,
      ⟨"Field unchanged",
        .object [("status", .string "active"), ("_previous", .object [("status", .string "active")])],
          "changed(status)", false⟩,
      ⟨"No previous snapshot", .object [("status", .string "active")], "changed(status)", false⟩] },
  { builtin := .previous
    signature := "previous(field) -> any"
    description := "Value of the field inside _previous, absent when there is none."
    examples := [
      ⟨"Get previous value",
        .object [("status", .string "active"), ("_previous", .object [("status", .string "pending")])],
          "previous(status) == 'pending'", true⟩,
      ⟨"No previous context", .object [("status", .string "active")], "previous(status) != 'active'", true⟩,
      ⟨"No previous context is undefined",
        .object [("status", .string "active")], "previous(status) == undefined", true⟩] },
  { builtin := .delta
    signature := "delta(field) -> bigint | number"
    description := "Numeric difference current - previous. Exact for integers, floating for decimals. Zero " ++
      "without _previous, false for non-numeric values."
    examples := [
      ⟨"Numeric delta",
        .object [("balance", .string "1000"), ("_previous", .object [("balance", .string "800")])],
          "bigint_eq(delta(balance), 200)", true⟩,
      ⟨"No previous returns zero", .object [("balance", .string "500")], "bigint_eq(delta(balance), 0)", true⟩,
      ⟨"Decimal delta",
        .object [("score", .decimal 75 2), ("_previous", .object [("score", .decimal 25 2)])],
          "delta(score) == 0.5", true⟩] },
  { builtin := .isAfter
    signature := "is_after(a, b) -> boolean"
    description := "True when timestamp a is strictly later than b. Invalid timestamps are false."
    examples := [
      ⟨"Later timestamp",
        .object [("a", .string "2026-06-02T00:00:00Z"), ("b", .string "2026-06-01T00:00:00Z")],
          "is_after(a, b)", true⟩,
      ⟨"Equal timestamps",
        .object [("a", .string "2026-06-01T00:00:00Z"), ("b", .string "2026-06-01T00:00:00Z")],
          "is_after(a, b)", false⟩,
      ⟨"Offsets are honoured",
        .object [("a", .string "2026-06-01T02:00:00+01:00"), ("b", .string "2026-06-01T00:30:00Z")],
          "is_after(a, b)", true⟩,
      ⟨"Free-form dates are rejected",
        .object [("a", .string "June 2, 2026"), ("b", .string "2026-06-01T00:00:00Z")], "is_after(a, b)",
          false⟩] },
  { builtin := .isBefore
    signature := "is_before(a, b) -> boolean"
    description := "True when timestamp a is strictly earlier than b."
    examples := [
      ⟨"Earlier timestamp",
        .object [("a", .string "2026-01-01T00:00:00Z"), ("b", .string "2026-06-01T00:00:00Z")],
          "is_before(a, b)", true⟩,
      ⟨"Slash dates are rejected",
        .object [("a", .string "2026/01/01"), ("b", .string "2026-06-01T00:00:00Z")], "is_before(a, b)",
          false⟩] },
  { builtin := .isBetween
    signature := "is_between(value, lower, upper) -> boolean"
    description := "True when lower <= value <= upper."
    examples := [
      ⟨"Inside the range",
        .object [("d", .string "2026-03-15T00:00:00Z"), ("lo", .string "2026-01-01T00:00:00Z"), ("hi",
          .string "2026-12-31T00:00:00Z")], "is_between(d, lo, hi)", true⟩,
      ⟨"Lower boundary is inclusive",
        .object [("d", .string "2026-01-01T00:00:00Z"), ("lo", .string "2026-01-01T00:00:00Z"), ("hi",
          .string "2026-12-31T00:00:00Z")], "is_between(d, lo, hi)", true⟩,
      ⟨"Before the range",
        .object [("d", .string "2025-12-31T00:00:00Z"), ("lo", .string "2026-01-01T00:00:00Z"), ("hi",
          .string "2026-12-31T00:00:00Z")], "is_between(d, lo, hi)", false⟩] },
  { builtin := .isStale
    signature := "is_stale(timestamp, max_age_seconds, reference) -> boolean"
    description := "True when more than max_age_seconds elapsed between timestamp and reference."
    examples := [
      ⟨"Two hours old with one hour limit",
        .object [("ts", .string "2026-01-01T00:00:00Z"), ("ref", .string "2026-01-01T02:00:00Z")],
          "is_stale(ts, 3600, ref)", true⟩,
      ⟨"Exactly at the limit is fresh",
        .object [("ts", .string "2026-01-01T00:00:00Z"), ("ref", .string "2026-01-01T01:00:00Z")],
          "is_stale(ts, 3600, ref)", false⟩,
      ⟨"Negative max age",
        .object [("ts", .string "2026-01-01T00:00:00Z"), ("ref", .string "2026-01-01T02:00:00Z"), ("neg",
          .ofInt (-1))], "is_stale(ts, neg, ref)", false⟩] },
  { builtin := .isWithin
    signature := "is_within(timestamp, max_age_seconds, reference) -> boolean"
    description := "True when at most max_age_seconds elapsed between timestamp and reference."
    examples := [
      ⟨"Exactly at the limit",
        .object [("ts", .string "2026-01-01T00:00:00Z"), ("ref", .string "2026-01-01T01:00:00Z")],
          "is_within(ts, 3600, ref)", true⟩,
      ⟨"Too old",
        .object [("ts", .string "2026-01-01T00:00:00Z"), ("ref", .string "2026-01-01T02:00:00Z")],
          "is_within(ts, 3600, ref)", false⟩] },
  { builtin := .now
    signature := "now() -> string"
    description := "Evaluation instant as an RFC 3339 string; the configured evaluation timestamp when set."
    examples := [
      ⟨"Now is after a past deadline",
        .object [("deadline", .string "2000-01-01T00:00:00Z")], "is_after(now(), deadline)", true⟩] }]

end Proviso.Catalogue
