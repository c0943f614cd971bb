/-
Integers in a record: what the comparisons and the exact builtins tell of them.

The builtins on amounts and `delta` take JSON integers as they are; the comparison operators, `eq` and `changed` take
them as doubles. Operands that are ordered and equal as two integers are meet the comparisons that the integers meet
(`Operand.ComparedAs.holds_eq`). Rounding keeps order, so the operators can only be wrong on different integers with one
nearest double (`Operand.compare_word`, `Operand.equals_word`). That is exactly when they are (`compared_exactly_iff`,
`change_shows_iff`), and it does not happen up to 2^53 (`Word.toldApart_of_le`). Canonical integer texts are compared as
texts, which never differs from comparing the integers.
-/
import Proviso.Proofs.Decimal.Canonical
import Proviso.Proofs.Double.Rounding
import Proviso.Proofs.Eval.Change
import Proviso.Proofs.Operand.Order

namespace Proviso

/-! ## JSON integers as doubles -/

/-- the integers are equal, or doubles tell them apart: the doubles nearest to them differ -/
def Word.ToldApart (m n : Word) : Prop := m.val = n.val ∨ Double.ofInt m.val ≠ Double.ofInt n.val

/-- that they are told apart says that their doubles are equal only when they are -/
theorem Word.toldApart_iff {m n : Word} :
    m.ToldApart n ↔ (Double.ofInt m.val = Double.ofInt n.val ↔ m.val = n.val) := by
  constructor
  · intro h
    constructor
    · intro hd
      exact h.resolve_right fun hne => hne hd
    · intro heq
      rw [heq]
  · intro hiff
    by_cases hd : Double.ofInt m.val = Double.ofInt n.val
    · exact .inl (hiff.1 hd)
    · exact .inr hd

/-- the integers up to 2^53 are told apart -/
theorem Word.toldApart_of_le {m n : Word} (hm : m.val.natAbs ≤ 2 ^ 53) (hn : n.val.natAbs ≤ 2 ^ 53) :
    m.ToldApart n := by
  rw [Word.toldApart_iff]
  exact Double.ofInt_inj hm hn

/-- a JSON integer as an operand -/
def Operand.word (n : Word) : Operand := .json (.number (.int n))

theorem Operand.compare_word (m n : Word) :
    (Operand.word m).compare (.word n) =
      some (if Double.ofInt m.val = Double.ofInt n.val then .eq else Ord.compare m.val n.val) :=
  Double.compare_ofInt m.val n.val

theorem Json.same_word (m n : Word) :
    (Json.number (.int m)).same (.number (.int n)) = decide (Double.ofInt m.val = Double.ofInt n.val) := by
  rw [Json.same, Number.toDouble, Number.toDouble, Double.equal, Double.compare_ofInt]
  by_cases h : Double.ofInt m.val = Double.ofInt n.val
  · simp [h]
  · have hne : m.val ≠ n.val := fun heq => h (congrArg Double.ofInt heq)
    simp [h, hne]

theorem Operand.equals_word (loose : Bool) (m n : Word) :
    (Operand.word m).equals loose (.word n) = decide (Double.ofInt m.val = Double.ofInt n.val) := by
  rw [Operand.word, Operand.word, equals_json_json, Json.same_word]

/-! ## Comparing two integers -/

/-- what a comparison asks of two integers -/
def BinaryOp.onIntegers? : BinaryOp → Option (Int → Int → Bool)
  | .eq => some fun m n => m = n
  | .ne => some fun m n => m ≠ n
  | .lt => some fun m n => m < n
  | .le => some fun m n => m ≤ n
  | .gt => some fun m n => m > n
  | .ge => some fun m n => m ≥ n
  | .and | .or | .implies => none

/-- what the four order operators ask of the order of two integers -/
theorem order_tests (a b : Int) :
    (Ord.compare a b == .lt) = decide (a < b) ∧ (Ord.compare a b != .gt) = decide (a ≤ b) ∧
      (Ord.compare a b == .gt) = decide (b < a) ∧ (Ord.compare a b != .lt) = decide (b ≤ a) := by
  rcases Int.lt_trichotomy a b with h | rfl | h
  · rw [Int.compare_eq_lt.2 h, decide_eq_true h, decide_eq_true (by omega : a ≤ b), decide_eq_false (by omega : ¬ b < a),
      decide_eq_false (by omega : ¬ b ≤ a)]
    decide
  · rw [Int.compare_eq_eq.2 rfl, decide_eq_false (Int.lt_irrefl a), decide_eq_true (Int.le_refl a)]
    decide
  · rw [Int.compare_eq_gt.2 h, decide_eq_true h, decide_eq_true (by omega : b ≤ a), decide_eq_false (by omega : ¬ a < b),
      decide_eq_false (by omega : ¬ a ≤ b)]
    decide

/-- the two operands are ordered and equal as the integers are -/
structure Operand.ComparedAs (a b : Operand) (m n : Int) : Prop where
  order : a.compare b = some (Ord.compare m n)
  equality : ∀ loose, a.equals loose b = decide (m = n)

/-- operands that are ordered as two integers are equal as they are -/
theorem Operand.comparedAs_of_compare {a b : Operand} {m n : Int} (h : a.compare b = some (Ord.compare m n)) :
    a.ComparedAs b m n where
  order := h
  equality loose := by
    rw [equals_of_compare h, Bool.eq_iff_iff, beq_iff_eq, Int.compare_eq_eq, decide_eq_true_iff]

/-- operands that compare as two integers do meet just the comparisons that the integers meet -/
theorem Operand.ComparedAs.holds_eq {a b : Operand} {m n : Int} (h : a.ComparedAs b m n) {op : BinaryOp}
    {r : Int → Int → Bool} (hop : op.onIntegers? = some r) (options : Options) : op.holds options a b = r m n := by
  obtain ⟨hlt, hle, hgt, hge⟩ := order_tests m n
  have hrelated := related_of_compare h.order
  cases op with
  | eq => obtain rfl := Option.some.inj hop; rw [BinaryOp.holds, h.equality]
  | ne => obtain rfl := Option.some.inj hop; simp only [BinaryOp.holds, h.equality, decide_not, ne_eq]
  | lt => obtain rfl := Option.some.inj hop; rw [BinaryOp.holds, hrelated, hlt]
  | le => obtain rfl := Option.some.inj hop; rw [BinaryOp.holds, hrelated, hle]
  | gt => obtain rfl := Option.some.inj hop; rw [BinaryOp.holds, hrelated, hgt]
  | ge => obtain rfl := Option.some.inj hop; rw [BinaryOp.holds, hrelated, hge]
  | and | or | implies => simp [BinaryOp.onIntegers?] at hop

/-- integers that doubles tell apart are ordered and equal as they are -/
theorem Operand.comparedAs_words {m n : Word} (h : m.ToldApart n) :
    (Operand.word m).ComparedAs (.word n) m.val n.val := by
  apply comparedAs_of_compare
  rw [compare_word]
  by_cases heq : m.val = n.val
  · rw [if_pos (Word.toldApart_iff.1 h |>.2 heq), Int.compare_eq_eq.2 heq]
  · rw [if_neg fun hd => heq ((Word.toldApart_iff.1 h).1 hd)]

namespace Expr

/-- The operators and `eq` compare the values of two paths just as the integers `m` and `n` compare. -/
structure ComparedExactly (env : Env) (p q : Path) (m n : Int) : Prop where
  eq : (binary .eq (.field p) (.field q)).eval env = .bool (m = n)
  ne : (binary .ne (.field p) (.field q)).eval env = .bool (m ≠ n)
  lt : (binary .lt (.field p) (.field q)).eval env = .bool (m < n)
  le : (binary .le (.field p) (.field q)).eval env = .bool (m ≤ n)
  gt : (binary .gt (.field p) (.field q)).eval env = .bool (n < m)
  ge : (binary .ge (.field p) (.field q)).eval env = .bool (n ≤ m)
  call : (call .eq [.field p, .field q]).eval env = .bool (m = n)

section

variable {env : Env} {p q : Path} {m n : Word} (hp : env.resolve p = some (.number (.int m)))
  (hq : env.resolve q = some (.number (.int n)))

include hp in
theorem eval_word : (field p).eval env = .word m := by
  rw [eval, hp, Operand.ofOption, Operand.word]

include hp hq

theorem eval_words (op : BinaryOp) :
    (binary op (field p) (field q)).eval env = .bool (op.holds env.options (.word m) (.word n)) := by
  rw [eval, eval_word hp, eval_word hq]

theorem call_words (f : Builtin) :
    (call f [field p, field q]).eval env = f.apply env (some p) [.word m, .word n] := by
  rw [eval, evalItems, evalItems, evalItems, eval_word hp, eval_word hq]
  rfl

/-- integers that doubles tell apart are compared exactly -/
theorem comparedExactly_of_toldApart (h : m.ToldApart n) : ComparedExactly env p q m.val n.val := by
  have hcompared := Operand.comparedAs_words h
  exact {
    eq := by rw [eval_words hp hq, hcompared.holds_eq rfl]
    ne := by rw [eval_words hp hq, hcompared.holds_eq rfl]
    lt := by rw [eval_words hp hq, hcompared.holds_eq rfl]
    le := by rw [eval_words hp hq, hcompared.holds_eq rfl]
    gt := by rw [eval_words hp hq, hcompared.holds_eq rfl]
    ge := by rw [eval_words hp hq, hcompared.holds_eq rfl]
    call := by
      rw [call_words hp hq]
      exact congrArg Operand.bool (hcompared.equality _) }

/-- integers that `==` tells apart are told apart by doubles -/
theorem toldApart_of_comparedExactly (h : ComparedExactly env p q m.val n.val) : m.ToldApart n := by
  have heq := h.eq
  rw [eval_words hp hq, BinaryOp.holds, Operand.equals_word] at heq
  rw [Word.toldApart_iff]
  simpa [Operand.bool] using heq

/-- **Integers are compared as integers exactly when doubles tell them apart.** The exact builtins always compare two
JSON integers as they are; the operators and `eq` do so just when the integers are equal or their nearest doubles differ,
and hence for all integers up to 2^53. -/
theorem compared_exactly_iff :
    ((call .bigintEq [field p, field q]).eval env = .bool (m.val = n.val) ∧
      (call .bigintGt [field p, field q]).eval env = .bool (n.val < m.val) ∧
      (call .bigintGte [field p, field q]).eval env = .bool (n.val ≤ m.val)) ∧
    (ComparedExactly env p q m.val n.val ↔ m.ToldApart n) ∧
    (m.val.natAbs ≤ 2 ^ 53 → n.val.natAbs ≤ 2 ^ 53 → ComparedExactly env p q m.val n.val) := by
  refine ⟨⟨?_, ?_, ?_⟩, ⟨toldApart_of_comparedExactly hp hq, comparedExactly_of_toldApart hp hq⟩, ?_⟩
  · rw [call_words hp hq]
    rfl
  · rw [call_words hp hq]
    rfl
  · rw [call_words hp hq]
    rfl
  · intro hm hn
    exact comparedExactly_of_toldApart hp hq (Word.toldApart_of_le hm hn)

end

/-- the largest word and the least, both far past 2^53, are compared exactly -/
theorem far_words_compared_exactly :
    let m : Word := ⟨2 ^ 64 - 1, by decide, by decide⟩
    let n : Word := ⟨-(2 ^ 63), by decide, by decide⟩
    let env : Env := {
      context := .object [("a", .number (.int m)), ("b", .number (.int n))], options := {}, clock := ⟨0, 0, 0⟩ }
    ComparedExactly env ⟨"a", []⟩ ⟨"b", []⟩ m.val n.val := by
  intro m n env
  have ha : env.resolve ⟨"a", []⟩ = some (.number (.int m)) := rfl
  have hb : env.resolve ⟨"b", []⟩ = some (.number (.int n)) := rfl
  have hdoubles : Double.ofInt m.val ≠ Double.ofInt n.val := by decide +kernel
  obtain ⟨-, hiff, -⟩ := compared_exactly_iff ha hb
  exact hiff.2 (.inr hdoubles)

/-- **`==` takes 2^53 + 1 for 2^53,** though the two are different integers and `bigint_eq` says so. -/
theorem equal_past_double_precision :
    let m : Word := ⟨2 ^ 53 + 1, by decide, by decide⟩
    let n : Word := ⟨2 ^ 53, by decide, by decide⟩
    let env : Env := {
      context := .object [("a", .number (.int m)), ("b", .number (.int n))], options := {}, clock := ⟨0, 0, 0⟩ }
    (binary .eq (.field ⟨"a", []⟩) (.field ⟨"b", []⟩)).eval env = .bool true ∧
      (call .bigintEq [.field ⟨"a", []⟩, .field ⟨"b", []⟩]).eval env = .bool false := by
  intro m n env
  have hdoubles : Double.ofInt m.val = Double.ofInt n.val := by decide +kernel
  constructor
  · rw [eval_words (m := m) (n := n) rfl rfl, BinaryOp.holds, Operand.equals_word, decide_eq_true hdoubles]
  · rw [call_words (m := m) (n := n) rfl rfl]
    rfl

end Expr

/-! ## An integer and its earlier value -/

namespace Json

/-- two values that write the integers `m` and `n` alike: as JSON integers, or as texts in canonical spelling -/
inductive Integers : Json → Json → Int → Int → Prop
  | numbers (m n : Word) : Integers (.number (.int m)) (.number (.int n)) m.val n.val
  | texts {s t : String} {m n : Int} (hs : Decimal.canonical? s.toList = some m)
      (ht : Decimal.canonical? t.toList = some n) : Integers (.string s) (.string t) m n

/-- JSON integers among the two values are told apart by doubles; texts always are -/
def ToldApart (v w : Json) : Prop := ∀ m n : Word, v = .number (.int m) → w = .number (.int n) → m.ToldApart n

variable {v w : Json} {m n : Int}

theorem Integers.toInt? (h : Integers v w m n) : v.toInt? = some m ∧ w.toInt? = some n := by
  cases h with
  | numbers m n => exact ⟨rfl, rfl⟩
  | texts hs ht => exact ⟨hs, ht⟩

theorem Integers.toldApart_of_le (h : Integers v w m n) (hm : m.natAbs ≤ 2 ^ 53) (hn : n.natAbs ≤ 2 ^ 53) :
    v.ToldApart w := by
  rintro a b rfl rfl
  cases h with
  | numbers => exact Word.toldApart_of_le hm hn

/-- equality of values is equality of the integers they write just where doubles do not confuse them -/
theorem Integers.same_iff (h : Integers v w m n) : (v.same w = true ↔ m = n) ↔ v.ToldApart w := by
  cases h with
  | numbers m n =>
    rw [same_word, decide_eq_true_iff, ← Word.toldApart_iff]
    constructor
    · intro htold a b hv hw
      cases hv
      cases hw
      exact htold
    · intro htold
      exact htold m n rfl rfl
  | texts hs ht =>
    constructor
    · intro _ a _ hv
      cases hv
    · intro _
      rw [same, beq_iff_eq]
      constructor
      · rintro rfl
        exact Option.some.inj (hs.symm.trans ht)
      · rintro rfl
        exact Decimal.canonical?_inj hs ht

end Json

namespace Expr

variable {env : Env} {p : Path} {old new : Json} {m n : Int}

theorem call_changed (hbefore : env.before p = some (some old)) (hnow : env.resolve p = some new) :
    (call .changed [.field p]).eval env = .bool (!old.same new) := by
  rw [eval_changed, hbefore, hnow, Verdict.changed, Operand.ofOption, Operand.ofOption, Operand.equals_json_json]

theorem call_delta (hbefore : env.before p = some (some old)) (hnow : env.resolve p = some new)
    (h : Json.Integers old new m n) : (call .delta [.field p]).eval env = .int (n - m) := by
  obtain ⟨hold, hnew⟩ := h.toInt?
  rw [eval_delta, hbefore, hnow]
  simp only [Verdict.delta, hold, hnew]

/-- **A change of an integer shows exactly when doubles tell the two values apart.** `delta` is always the exact
difference; `changed` goes with it just when the values are texts, equal, or integers whose nearest doubles differ, and
hence for all integers up to 2^53. -/
theorem change_shows_iff (hbefore : env.before p = some (some old)) (hnow : env.resolve p = some new)
    (h : Json.Integers old new m n) :
    (call .delta [.field p]).eval env = .int (n - m) ∧
    (((call .changed [.field p]).eval env = .bool true ↔ (call .delta [.field p]).eval env ≠ .int 0) ↔
      old.ToldApart new) ∧
    (m.natAbs ≤ 2 ^ 53 → n.natAbs ≤ 2 ^ 53 →
      ((call .changed [.field p]).eval env = .bool true ↔ (call .delta [.field p]).eval env ≠ .int 0)) := by
  have hchanged : (call .changed [.field p]).eval env = .bool true ↔ ¬ old.same new = true := by
    rw [call_changed hbefore hnow]
    simp [Operand.bool]
  have hdelta : (call .delta [.field p]).eval env ≠ .int 0 ↔ ¬ m = n := by
    rw [call_delta hbefore hnow h, ne_eq, Operand.int.injEq]
    omega
  have hiff : ((call .changed [.field p]).eval env = .bool true ↔ (call .delta [.field p]).eval env ≠ .int 0) ↔
      old.ToldApart new := by
    rw [hchanged, hdelta, not_iff_not]
    exact h.same_iff
  exact ⟨call_delta hbefore hnow h, hiff, fun hm hn => hiff.2 (h.toldApart_of_le hm hn)⟩

/-- a text of more digits than a double holds -/
theorem change_of_long_text_shows :
    let env : Env := {
      context := .object [("v", .string "100000000000000000000000000000"),
        (previousKey, .object [("v", .string "100000000000000000000000000001")])],
      options := {}, clock := ⟨0, 0, 0⟩ }
    (call .delta [.field ⟨"v", []⟩]).eval env = .int (-1) ∧
      ((call .changed [.field ⟨"v", []⟩]).eval env = .bool true ↔
        (call .delta [.field ⟨"v", []⟩]).eval env ≠ .int 0) := by
  intro env
  have hbefore : env.before ⟨"v", []⟩ = some (some (.string "100000000000000000000000000001")) := rfl
  have hnow : env.resolve ⟨"v", []⟩ = some (.string "100000000000000000000000000000") := rfl
  have hpair : Json.Integers (.string "100000000000000000000000000001") (.string "100000000000000000000000000000")
      100000000000000000000000000001 100000000000000000000000000000 :=
    .texts (by decide +kernel) (by decide +kernel)
  obtain ⟨hdelta, hiff, -⟩ := change_shows_iff hbefore hnow hpair
  exact ⟨hdelta, hiff.2 fun _ _ hold => by cases hold⟩

/-- **`changed` misses the step from 2^53 to 2^53 + 1,** though `delta` is 1. -/
theorem change_hidden_past_double_precision :
    let old : Word := ⟨2 ^ 53, by decide, by decide⟩
    let new : Word := ⟨2 ^ 53 + 1, by decide, by decide⟩
    let env : Env := {
      context := .object [("v", .number (.int new)), (previousKey, .object [("v", .number (.int old))])],
      options := {}, clock := ⟨0, 0, 0⟩ }
    (call .changed [.field ⟨"v", []⟩]).eval env = .bool false ∧
      (call .delta [.field ⟨"v", []⟩]).eval env = .int 1 := by
  intro old new env
  have hbefore : env.before ⟨"v", []⟩ = some (some (.number (.int old))) := rfl
  have hnow : env.resolve ⟨"v", []⟩ = some (.number (.int new)) := rfl
  have hdoubles : Double.ofInt old.val = Double.ofInt new.val := by decide +kernel
  constructor
  · rw [call_changed hbefore hnow, Json.same_word, decide_eq_true hdoubles, Bool.not_true]
  · exact call_delta hbefore hnow (.numbers old new)

end Expr

end Proviso
