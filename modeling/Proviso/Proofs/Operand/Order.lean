/-
Order and equality of operands go together.

Order and equality are tested apart, and a number has three ways to be compared: exactly, by its double, and as a text. On
each way the order turns round with the operands (`compare_comm`), and where two operands have an order, they are equal just
when it says so (`equals_of_compare`). So of `<`, `==` and `>` one holds and the others do not, and `<=` and `>=` hold where
one of two of them does (`Trichotomous`); operands without an order meet none of the four order operators
(`order_goes_with_equality`).
-/
import Proviso.Eval
import Proviso.Proofs.Operand.Equality

namespace Proviso

/-- turned round, two doubles stand in the opposite order -/
theorem Double.compare_comm (x y : Double) : y.compare x = (x.compare y).map Ordering.swap := by
  simp only [compare]
  cases x.key with
  | none => cases y.key <;> rfl
  | some m =>
    cases y.key with
    | none => rfl
    | some n => simp only [Option.map_some, Int.compare_swap]

namespace Operand

/-! ## Both ways round -/

theorem compare_absent (b : Operand) : compare .absent b = none := by
  cases b <;> rfl

theorem compare_list (items : List Operand) (b : Operand) : compare (.list items) b = none := by
  cases b <;> rfl

theorem compare_int_left (n : Int) (b : Operand) : compare (.int n) b = compareInt n b := by
  rw [compare]

theorem compare_int_right (a : Operand) (n : Int) : compare a (.int n) = (compareInt n a).map Ordering.swap := by
  cases a with
  | int m => rw [compare_int_left, compareInt_int, compareInt_int, Option.map_some, Int.compare_swap]
  | absent | json | list => simp [compare]

theorem compare_json_comm (v w : Json) :
    compare (.json w) (.json v) = (compare (.json v) (.json w)).map Ordering.swap := by
  cases v with
  | number n =>
    cases w with
    | number m => exact Double.compare_comm n.toDouble m.toDouble
    | null | bool | string | array | object => rfl
  | string s =>
    cases w with
    | string t =>
      have hswap : Ord.compare t s = (Ord.compare s t).swap := Std.OrientedCmp.eq_swap
      exact congrArg some hswap
    | null | bool | number | array | object => rfl
  | null | bool | array | object => cases w <;> rfl

/-- turned round, two operands stand in the opposite order, or still in none -/
theorem compare_comm (a b : Operand) : b.compare a = (a.compare b).map Ordering.swap := by
  induction a, b using pair_induction with
  | symm a b h =>
    rw [h, Option.map_map]
    cases a.compare b with
    | none => rfl
    | some order => exact congrArg some (Ordering.swap_swap (o := order)).symm
  | absent b =>
    rw [compare_absent]
    cases b <;> rfl
  | int n b => rw [compare_int_left, compare_int_right]
  | json v w => exact compare_json_comm v w
  | list items b =>
    rw [compare_list]
    cases b <;> rfl

/-! ## Order and equality -/

theorem equals_json_of_compare {v w : Json} {order : Ordering} (h : compare (.json v) (.json w) = some order) :
    v.same w = (order == .eq) := by
  cases v with
  | number n =>
    cases w with
    | number m =>
      have hdoubles : n.toDouble.compare m.toDouble = some order := h
      rw [Json.same, Double.equal, hdoubles]
      rfl
    | null | bool | string | array | object => cases h
  | string s =>
    cases w with
    | string t =>
      obtain rfl := Option.some.inj h
      rw [Json.same, Bool.eq_iff_iff, beq_iff_eq, beq_iff_eq, Std.compare_eq_iff_eq]
    | null | bool | number | array | object => cases h
  | null | bool | array | object => cases w <;> cases h

/-- operands that have an order are equal just when it says so -/
theorem equals_of_compare {a b : Operand} {order : Ordering} (h : a.compare b = some order) (loose : Bool) :
    a.equals loose b = (order == .eq) := by
  induction a, b using pair_induction generalizing order with
  | symm a b ih =>
    rw [compare_comm a b, Option.map_eq_some_iff] at h
    obtain ⟨opposite, hopposite, rfl⟩ := h
    rw [equals_comm, ih hopposite]
    cases opposite <;> rfl
  | absent b =>
    rw [compare_absent] at h
    cases h
  | int n b =>
    rw [compare_int_left] at h
    rw [equals_int_left, h]
    rfl
  | json v w =>
    rw [equals_json_json]
    exact equals_json_of_compare h
  | list items b =>
    rw [compare_list] at h
    cases h

/-! ## The operators -/

/-- One of two operands is less than the other, equal to it or greater, and only one of these; the weak orders are the
strict ones or equality. -/
structure Trichotomous (options : Options) (a b : Operand) : Prop where
  one : [BinaryOp.lt, .eq, .gt].countP (·.holds options a b) = 1
  le : BinaryOp.le.holds options a b = (BinaryOp.lt.holds options a b || BinaryOp.eq.holds options a b)
  ge : BinaryOp.ge.holds options a b = (BinaryOp.gt.holds options a b || BinaryOp.eq.holds options a b)

variable {a b : Operand}

theorem related_of_compare {order : Ordering} (h : a.compare b = some order) (allowed : Ordering → Bool) :
    related allowed a b = allowed order := by
  rw [related, h, Option.any_some]

theorem trichotomous_of_compare {order : Ordering} (h : a.compare b = some order) (options : Options) :
    Trichotomous options a b := by
  have hlt : BinaryOp.lt.holds options a b = (order == .lt) := related_of_compare h _
  have hle : BinaryOp.le.holds options a b = (order != .gt) := related_of_compare h _
  have hgt : BinaryOp.gt.holds options a b = (order == .gt) := related_of_compare h _
  have hge : BinaryOp.ge.holds options a b = (order != .lt) := related_of_compare h _
  have heq : BinaryOp.eq.holds options a b = (order == .eq) := equals_of_compare h _
  refine ⟨?_, ?_, ?_⟩
  · simp only [List.countP_cons, List.countP_nil, hlt, heq, hgt]
    cases order <;> rfl
  · rw [hle, hlt, heq]
    cases order <;> rfl
  · rw [hge, hgt, heq]
    cases order <;> rfl

/-- operands without an order meet no order operator -/
theorem holds_of_compare_none (h : a.compare b = none) (options : Options) {op : BinaryOp}
    (hop : op ∈ [BinaryOp.lt, .le, .gt, .ge]) : op.holds options a b = false := by
  have hrelated : ∀ allowed, related allowed a b = false := by
    intro allowed
    rw [related, h, Option.any_none]
  simp only [List.mem_cons, List.not_mem_nil, or_false] at hop
  rcases hop with rfl | rfl | rfl | rfl
  all_goals exact hrelated _

/-- **Order and equality go together.** Turned round, two operands stand in the opposite order, or in none if they had none.
Where they have an order they are equal just when it says so, whether or not what is absent equals null; just one of `<`,
`==` and `>` holds, and `<=` and `>=` hold where `==` or the strict one does. Where they have none, no order operator holds
between them either way round. -/
theorem order_goes_with_equality (a b : Operand) :
    b.compare a = (a.compare b).map Ordering.swap ∧
    (∀ order, a.compare b = some order → ∀ options : Options,
      (a.equals options.absentEqualsNull b = true ↔ order = .eq) ∧ Trichotomous options a b) ∧
    (a.compare b = none → ∀ options, ∀ op ∈ [BinaryOp.lt, .le, .gt, .ge],
      op.holds options a b = false ∧ op.holds options b a = false) := by
  refine ⟨compare_comm a b, ?_, ?_⟩
  · intro order horder options
    refine ⟨?_, trichotomous_of_compare horder options⟩
    rw [equals_of_compare horder, beq_iff_eq]
  · intro hnone options op hop
    have hswapped : b.compare a = none := by rw [compare_comm a b, hnone, Option.map_none]
    exact ⟨holds_of_compare_none hnone options hop, holds_of_compare_none hswapped options hop⟩

/-- an integer past all doubles is greater than the largest of them, and has no order with a text of more digits than its
number takes -/
theorem order_past_doubles :
    let options : Options := { absentEqualsNull := true }
    let huge : Operand := .int (2 ^ 1100)
    let largest : Operand := .json (.number (.float ⟨false, Double.finiteCodes - 1, by decide⟩))
    let padded : Operand := .json (.string "0300")
    huge.compare largest = some .gt ∧ Trichotomous options huge largest ∧
      huge.compare padded = none ∧ BinaryOp.ge.holds options padded huge = false := by
  intro options huge largest padded
  have horder : huge.compare largest = some .gt := by decide +kernel
  have hnone : huge.compare padded = none := by decide +kernel
  obtain ⟨-, hordered, -⟩ := order_goes_with_equality huge largest
  obtain ⟨-, -, hunordered⟩ := order_goes_with_equality huge padded
  exact ⟨horder, (hordered _ horder options).2, hnone, (hunordered hnone options .ge (by simp)).2⟩

end Operand

end Proviso
