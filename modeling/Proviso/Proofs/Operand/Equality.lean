/-
Equality of operands.

Each kind of operand meets the others in one way, whichever side it stands on: what is absent meets what is absent or, when
the options say so, null (`equals_absent_left`, `equals_absent_right`); an exact integer meets what is compared with it as
equal (`equals_int_left`, `equals_int_right`); a list meets what has elements, one by one (`equals_list_left`,
`equals_list_right`); and two values meet by deep equality. So what is to be shown of a pair of operands is shown kind by
kind (`pair_induction`): equality is symmetric, and every operand equals itself (`operands_equal_symmetrically`).
-/
import Mathlib.Data.List.Zip
import Proviso.Operand.Order
import Proviso.Proofs.Json.Equality

namespace Proviso

namespace Operand

/-- induction over operands: over a list by its members -/
@[elab_as_elim]
theorem induction {motive : Operand → Prop} (absent : motive .absent) (json : ∀ v, motive (.json v))
    (int : ∀ n, motive (.int n)) (list : ∀ items, (∀ o ∈ items, motive o) → motive (.list items)) : ∀ o, motive o
  | .absent => absent
  | .json v => json v
  | .int n => int n
  | .list items => list items fun o _ => induction absent json int list o

variable {loose : Bool} {xs ys : List Operand}

/-! ## One kind against all -/

theorem equals_absent_left (b : Operand) : equals loose .absent b = (b.isAbsent || loose && b.isNullish) := by
  cases b <;> simp [equals, isAbsent, isNullish]

theorem equals_absent_right (a : Operand) : equals loose a .absent = (a.isAbsent || loose && a.isNullish) := by
  cases a <;> simp [equals, Json.equals, isAbsent, isNullish]

theorem equals_json_json (v w : Json) : equals loose (.json v) (.json w) = v.same w := by
  rw [equals, Json.equals]

theorem compareInt_int (n m : Int) : compareInt n (.int m) = some (Ord.compare n m) := rfl

/-- what is compared as equal is compared as equal the other way round -/
theorem swap_eq_some_eq (o : Option Ordering) : (o.map Ordering.swap == some .eq) = (o == some .eq) := by
  rcases o with - | o
  · rfl
  · cases o <;> rfl

theorem equals_int_left (n : Int) (b : Operand) : equals loose (.int n) b = (compareInt n b == some .eq) := by
  cases b <;> simp [equals, compare, compareInt, toInt?]

theorem equals_int_right (a : Operand) (n : Int) : equals loose a (.int n) = (compareInt n a == some .eq) := by
  cases a with
  | absent => simp [equals, compareInt, toInt?]
  | json v =>
    rw [equals]
    calc v.equals loose (.int n)
      _ = (compare (.json v) (.int n) == some .eq) := by simp [Json.equals]
      _ = ((compareInt n (.json v)).map Ordering.swap == some .eq) := by simp [compare]
      _ = (compareInt n (.json v) == some .eq) := swap_eq_some_eq _
  | int m =>
    rw [equals_int_left, compareInt_int, compareInt_int, Bool.eq_iff_iff]
    simp only [beq_iff_eq, Option.some.injEq, Int.compare_eq_eq]
    exact eq_comm
  | list items => simp [equals, compareInt, toInt?]

theorem equalsItems_json (vs : List Json) (items : List Operand) :
    Json.equalsItems loose vs items = equalsItems loose (vs.map .json) items := by
  induction vs generalizing items with
  | nil => cases items <;> rfl
  | cons v vs ih =>
    cases items with
    | nil => rfl
    | cons o os => simp [Json.equalsItems, equalsItems, equals, ih]

theorem equals_list_left (items : List Operand) (b : Operand) :
    equals loose (.list items) b = b.elements?.any (equalsItems loose items ·) := by
  cases b with
  | json v => cases v <;> simp [equals, elements?]
  | absent | int | list => simp [equals, elements?]

theorem equals_list_right (a : Operand) (items : List Operand) :
    equals loose a (.list items) = a.elements?.any (equalsItems loose · items) := by
  cases a with
  | json v => cases v <;> simp [equals, Json.equals, elements?, equalsItems_json]
  | absent => simp [equals, elements?]
  | int n => simp [equals, compare, compareInt, toInt?, elements?]
  | list others => simp [equals, elements?]

/-! ## Members in turn -/

/-- operands are equal in turn when there are as many on both sides and those that stand together are equal -/
theorem equalsItems_iff : equalsItems loose xs ys = true ↔
    xs.length = ys.length ∧ ∀ p ∈ xs.zip ys, p.1.equals loose p.2 = true := by
  induction xs generalizing ys with
  | nil => cases ys <;> simp [equalsItems]
  | cons x xs ih =>
    cases ys with
    | nil => simp [equalsItems]
    | cons y ys => simp [equalsItems, ih, and_left_comm]

theorem equalsItems_comm (h : ∀ x ∈ xs, ∀ y ∈ ys, x.equals loose y = y.equals loose x) :
    equalsItems loose xs ys = equalsItems loose ys xs := by
  rw [Bool.eq_iff_iff, equalsItems_iff, equalsItems_iff, ← List.zip_swap xs ys, List.forall_mem_map]
  apply and_congr eq_comm
  apply forall₂_congr
  intro p hp
  rw [h p.1 (List.of_mem_zip hp).1 p.2 (List.of_mem_zip hp).2, Prod.fst_swap, Prod.snd_swap]

theorem equalsItems_self (h : ∀ x ∈ xs, x.equals loose x = true) : equalsItems loose xs xs = true := by
  induction xs with
  | nil => rfl
  | cons x xs ih =>
    rw [equalsItems, Bool.and_eq_true]
    exact ⟨h x List.mem_cons_self, ih fun x hx => h x (List.mem_cons_of_mem _ hx)⟩

/-! ## Both ways round -/

/-- a list and an operand meet alike from both sides when their members do -/
theorem equals_list_comm {items : List Operand} {b : Operand}
    (h : ∀ others, b.elements? = some others → ∀ x ∈ items, ∀ y ∈ others, x.equals loose y = y.equals loose x) :
    equals loose (.list items) b = equals loose b (.list items) := by
  rw [equals_list_left, equals_list_right]
  cases hb : b.elements? with
  | none => rfl
  | some others => exact equalsItems_comm (h others hb)

theorem exists_json_of_mem_elements? {v : Json} {o : Operand} (hv : elements? (.json v) = some xs) (ho : o ∈ xs) :
    ∃ w, o = .json w := by
  cases v with
  | array items =>
    obtain rfl := Option.some.inj hv
    obtain ⟨w, -, rfl⟩ := List.mem_map.1 ho
    exact ⟨w, rfl⟩
  | null | bool | number | string | object => cases hv

/-- Induction over pairs of operands, for what does not depend on their order: a list and an operand by the members of the
one and the elements of the other. -/
@[elab_as_elim]
theorem pair_induction {motive : Operand → Operand → Prop} (symm : ∀ a b, motive a b → motive b a)
    (absent : ∀ b, motive .absent b) (int : ∀ n b, motive (.int n) b) (json : ∀ v w, motive (.json v) (.json w))
    (list : ∀ items b, (∀ others, b.elements? = some others → ∀ x ∈ items, ∀ y ∈ others, motive x y) →
      motive (.list items) b) (a b : Operand) : motive a b := by
  induction a using induction generalizing b with
  | absent => exact absent b
  | int n => exact int n b
  | list items ih => exact list items b fun _ _ o ho other _ => ih o ho other
  | json v =>
    -- a value has no lists inside, so the induction goes over the other operand
    induction b using induction generalizing v with
    | absent => exact symm _ _ (absent _)
    | int n => exact symm _ _ (int n _)
    | json w => exact json v w
    | list items ih =>
      apply symm
      apply list
      intro members hv o ho member hmember
      obtain ⟨w, rfl⟩ := exists_json_of_mem_elements? hv hmember
      exact symm _ _ (ih o ho w)

theorem equals_comm (a b : Operand) : a.equals loose b = b.equals loose a := by
  induction a, b using pair_induction with
  | symm a b h => exact h.symm
  | absent b => rw [equals_absent_left, equals_absent_right]
  | int n b => rw [equals_int_left, equals_int_right]
  | json v w =>
    rw [equals_json_json, equals_json_json]
    exact Json.same_comm v w
  | list items b ih => exact equals_list_comm ih

theorem equals_self (a : Operand) : a.equals loose a = true := by
  induction a using induction with
  | absent => rfl
  | json v =>
    rw [equals_json_json]
    exact Json.same_self v
  | int n => simp [equals_int_left, compareInt_int]
  | list items ih =>
    rw [equals_list_left]
    exact equalsItems_self ih

/-- **Equality of operands is reflexive and symmetric,** whether or not what is absent equals null: operands of every kind
equal themselves, and whether two are equal does not depend on their order. -/
theorem operands_equal_symmetrically (loose : Bool) :
    (∀ a : Operand, a.equals loose a = true) ∧ ∀ a b : Operand, a.equals loose b = b.equals loose a :=
  ⟨equals_self, equals_comm⟩

end Operand

end Proviso
