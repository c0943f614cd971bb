/-
Builtins on exact amounts.
-/
import Proviso.Builtin.Entry

namespace Proviso.Catalogue

/-- builtins on exact amounts -/
def amounts : List Entry := [
  { builtin := .bigintSum
    signature := "bigint_sum(array, field?) -> bigint"
    description := "Exact sum. Form 1: bigint_sum([a, b]). Form 2: bigint_sum(records, 'field') where the field " ++
      "may be a dotted path. Null and missing values are skipped."
    examples := [
      ⟨"Sum array literal fields",
        .object [("a", .string "100"), ("b", .string "200")], "bigint_sum([a, b]) == 300", true⟩,
      ⟨"Sum field from array of objects",
        .object [("items", .array [.object [("cost", .string "10")], .object [("cost", .string "20")],
          .object [("cost", .string "30")]])], "bigint_sum(items, 'cost') == 60", true⟩,
      ⟨"Dotted field path",
        .object [("candidates", .array [.object [("usage", .object [("cost_micro", .string "5")])],
          .object [("usage", .object [("cost_micro", .string "7")])]])],
          "bigint_sum(candidates, 'usage.cost_micro') == 12", true⟩,
      ⟨"Thirty digit amounts stay exact",
        .object [("a", .string "999999999999999999999999999999"), ("b", .string "1")],
          "bigint_eq(bigint_sum([a, b]), '1000000000000000000000000000000')", true⟩,
      ⟨"Malformed amount fails closed",
        .object [("items", .array [.object [("cost", .string "10")], .object [("cost", .string "1.5")]])],
          "bigint_sum(items, 'cost') == 10", false⟩] },
  { builtin := .bigintGte
    signature := "bigint_gte(a, b) -> boolean"
    description := "True when a >= b after exact integer conversion."
    examples := [
      ⟨"Greater value passes",
        .object [("budget", .string "1000"), ("cost", .string "500")], "bigint_gte(budget, cost)", true⟩,
      ⟨"Equal values pass", .object [("a", .string "100"), ("b", .string "100")], "bigint_gte(a, b)", true⟩,
      ⟨"Lesser value fails", .object [("a", .string "50"), ("b", .string "100")], "bigint_gte(a, b)", false⟩] },
  { builtin := .bigintGt
    signature := "bigint_gt(a, b) -> boolean"
    description := "True when a > b after exact integer conversion."
    examples := [
      ⟨"Strictly greater passes", .object [("a", .string "200"), ("b", .string "100")], "bigint_gt(a, b)", true⟩,
      ⟨"Equal values fail", .object [("a", .string "100"), ("b", .string "100")], "bigint_gt(a, b)", false⟩] },
  { builtin := .bigintEq
    signature := "bigint_eq(a, b) -> boolean"
    description := "True when a == b after exact integer conversion."
    examples := [
      ⟨"Equal numeric strings",
        .object [("a", .string "1000000"), ("b", .string "1000000")], "bigint_eq(a, b)", true⟩,
      ⟨"Different values", .object [("a", .string "100"), ("b", .string "200")], "bigint_eq(a, b)", false⟩,
      ⟨"Leading zeros are malformed",
        .object [("a", .string "0100"), ("b", .string "100")], "bigint_eq(a, b)", false⟩] },
  { builtin := .bigintSub
    signature := "bigint_sub(a, b) -> bigint"
    description := "Exact difference a - b. May be negative."
    examples := [
      ⟨"Simple subtraction",
        .object [("total", .string "1000"), ("part", .string "300")],
          "bigint_eq(bigint_sub(total, part), 700)", true⟩,
      ⟨"Subtraction to zero",
        .object [("a", .string "500"), ("b", .string "500")], "bigint_eq(bigint_sub(a, b), 0)", true⟩] },
  { builtin := .bigintAdd
    signature := "bigint_add(a, b) -> bigint"
    description := "Exact sum a + b."
    examples := [
      ⟨"Simple addition",
        .object [("a", .string "100"), ("b", .string "200")], "bigint_eq(bigint_add(a, b), 300)", true⟩,
      ⟨"Addition with zero",
        .object [("a", .string "500"), ("b", .string "0")], "bigint_eq(bigint_add(a, b), 500)", true⟩] },
  { builtin := .isBigintCoercible
    signature := "is_bigint_coercible(value) -> boolean"
    description := "True for canonical integer strings and integral numbers."
    examples := [
      ⟨"Negative integer string", .object [("v", .string "-500")], "is_bigint_coercible(v)", true⟩,
      ⟨"Integral number", .object [("count", .ofInt 42)], "is_bigint_coercible(count)", true⟩,
      ⟨"Decimal string", .object [("v", .string "1.50")], "is_bigint_coercible(v)", false⟩,
      ⟨"Null", .object [("v", .null)], "is_bigint_coercible(v)", false⟩] }]

end Proviso.Catalogue
