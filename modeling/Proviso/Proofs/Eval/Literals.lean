/-
Integer literals, from their digits to the verdict.

A literal is the exact integer of its digits, and on either side an exact integer is compared exactly with every value
that writes one (`Operand.comparedAs_left`, `Operand.comparedAs_right`), so no width of a machine integer and no precision
of a double shows. With the reading of comparisons this gives the verdict on a text that compares a literal with a field
(`literals_compared_exactly`).
-/
import Proviso.Proofs.Eval.Integers
import Proviso.Proofs.Json.Fields
import Proviso.Proofs.Path.Spelling

namespace Proviso

open Grammar Text

theorem Grammar.compares_of_onIntegers? {op : BinaryOp} {r : Int → Int → Bool} (h : op.onIntegers? = some r) :
    Compares op := by
  cases op <;> simp [BinaryOp.onIntegers?, Compares] at h ⊢

/-! ## Operands that write integers -/

variable {v : Json} {m n : Int}

theorem compareInt_of_writes (hv : v.Writes n) (m : Int) : Operand.compareInt m (.json v) = some (Ord.compare m n) := by
  have hint : (Operand.json v).toInt? = some n := Json.toInt?_eq_some.2 hv
  simp only [Operand.compareInt, hint]

/-- an exact integer is compared exactly with what writes one -/
theorem Operand.comparedAs_left (hv : v.Writes n) (m : Int) : (Operand.int m).ComparedAs (.json v) m n :=
  comparedAs_of_compare (compareInt_of_writes hv m)

theorem Operand.comparedAs_right (hv : v.Writes n) (m : Int) : (Operand.json v).ComparedAs (.int m) n m := by
  apply comparedAs_of_compare
  rw [compare_int_right, compareInt_of_writes hv, Option.map_some, Int.compare_swap]

/-! ## From the text to the verdict -/

theorem map_eval_ofText? {text : String} {e : Expr} (h : Expr.ofText? text = .ok e) (env : Env) :
    (Expr.ofText? text).map (Expr.eval env) = .ok (e.eval env) := by
  rw [h]
  rfl

/-- **Integer literals are exact, from their digits to the verdict.** Digits are read as the literal of their number,
however many they are and whatever zeros stand in front. Where a field holds an integer, as a JSON integer or as its
decimal text, a comparison of the two in either order, with blanks around the operator or without, has the operand that
the integers give. -/
theorem literals_compared_exactly {m : Nat} {digits : String} (hm : Decimal.Numeral m digits.toList) :
    Expr.ofText? digits = .ok (.literal (.int m)) ∧
    ∀ (env : Env) (p : Path) (f : String) (v : Json) (n : Int), p.Spelling f → env.resolve p = some v → v.Writes n →
    ∀ (op : BinaryOp) (r : Int → Int → Bool), op.onIntegers? = some r →
    ∀ gap gap' : String, (∀ c ∈ gap.toList, isBlank c = true) → (∀ c ∈ gap'.toList, isBlank c = true) →
      (Expr.ofText? (digits ++ gap ++ op.symbol ++ gap' ++ f)).map (Expr.eval env) = .ok (.bool (r m n)) ∧
      (Expr.ofText? (f ++ gap ++ op.symbol ++ gap' ++ digits)).map (Expr.eval env) = .ok (.bool (r n m)) := by
  have hliteral := termText_numeral hm
  refine ⟨hliteral.ofText?_eq, ?_⟩
  intro env p f v n hf hv hn op r hop gap gap' hgap hgap'
  have hcompares := compares_of_onIntegers? hop
  have hfield : (Expr.field p).eval env = .json v := by rw [Expr.eval, hv, Operand.ofOption]
  have hinteger : (Expr.literal (.int m)).eval env = .int m := rfl
  constructor
  · rw [map_eval_ofText? (ofText?_comparison hcompares hliteral hf.termText hgap hgap'), Expr.eval, hfield, hinteger,
      (Operand.comparedAs_left hn m).holds_eq hop]
  · rw [map_eval_ofText? (ofText?_comparison hcompares hf.termText hliteral hgap hgap'), Expr.eval, hfield, hinteger,
      (Operand.comparedAs_right hn m).holds_eq hop]

/-- 2^64 + 1 with zeros in front, against a text one less and against the largest JSON integer -/
theorem literal_past_words_compared :
    let count : Word := ⟨2 ^ 64 - 1, by decide, by decide⟩
    let env : Env := {
      context := .object [("usage", .array [.string "18446744073709551616"]), ("count", .number (.int count))],
      options := {}, clock := ⟨0, 0, 0⟩ }
    Decimal.Numeral 18446744073709551617 "00018446744073709551617".toList ∧
      (Expr.ofText? "00018446744073709551617 > usage[0]").map (Expr.eval env) = .ok (.bool true) ∧
      (Expr.ofText? "count==00018446744073709551617").map (Expr.eval env) = .ok (.bool false) := by
  intro count env
  have hm : Decimal.Numeral 18446744073709551617 "00018446744073709551617".toList := ⟨3, by decide +kernel⟩
  have husage : Path.Spelling ⟨"usage", [.index 0]⟩ "usage[0]" := (Path.Spelling.root (by decide) (by decide)).index 0
  have hcount : Path.Spelling ⟨"count", []⟩ "count" := .root (by decide) (by decide)
  have htext : (Json.string "18446744073709551616").Writes 18446744073709551616 :=
    Json.toInt?_eq_some.1 (by decide +kernel)
  have hblank : ∀ c ∈ " ".toList, isBlank c = true := List.all_eq_true.1 rfl
  have hnone : ∀ c ∈ "".toList, isBlank c = true := by simp
  obtain ⟨-, hcompared⟩ := literals_compared_exactly hm
  refine ⟨hm, ?_, ?_⟩
  · exact (hcompared env _ _ _ _ husage rfl htext .gt _ rfl " " " " hblank hblank).1
  · exact (hcompared env _ _ _ _ hcount rfl (.number count) .eq _ rfl "" "" hnone hnone).2

end Proviso
