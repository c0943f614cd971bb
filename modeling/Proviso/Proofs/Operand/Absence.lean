/-
Equality where absent equals null.

That setting changes nothing but how a missing value is read: two operands are equal under it when they are equal without
it once null stands for all that is absent in them, at the top and inside lists (`equals_filled`). A list goes on having
elements when it is filled, and all else that has elements is a JSON array, where nothing is absent
(`elements?_filled`); so the way into the operands is the same before and after. Under the setting more operands are equal
and never fewer (`equals_of_strict`).
-/
import Proviso.Proofs.Operand.Equality

namespace Proviso

namespace Operand

mutual

/-- the operand with null for all that is absent in it, also in the lists inside it -/
def filled : Operand → Operand
  | .absent => .json .null
  | .json v => .json v
  | .int n => .int n
  | .list items => .list (filledItems items)

/-- the operands in turn, each with null for all that is absent in it -/
def filledItems : List Operand → List Operand
  | [] => []
  | o :: rest => o.filled :: filledItems rest

end

variable {xs ys : List Operand}

theorem filledItems_eq_map (items : List Operand) : filledItems items = items.map filled := by
  induction items with
  | nil => rfl
  | cons o rest ih => rw [filledItems, ih, List.map_cons]

theorem filled_list (items : List Operand) : filled (.list items) = .list (items.map filled) := by
  rw [filled, filledItems_eq_map]

/-- filling an operand fills its elements: those of a JSON array are values, and stay as they are -/
theorem elements?_filled (o : Operand) : o.filled.elements? = o.elements?.map (·.map filled) := by
  cases o with
  | absent | int n => rfl
  | list items => rw [filled_list, elements?, elements?, Option.map_some]
  | json v =>
    rw [filled]
    cases v with
    | array items => simp [elements?, filled]
    | null | bool b | number n | string s | object fields => rfl

/-- to an exact integer what is absent and null are alike -/
theorem compareInt_filled (n : Int) (o : Operand) : compareInt n o.filled = compareInt n o := by
  cases o with
  | absent | json v | int m => rfl
  | list items =>
    rw [filled_list]
    rfl

/-- what is absent, read as null, is equal to what is absent or null -/
theorem null_equals_filled (o : Operand) : equals false (.json .null) o.filled = o.isNullish := by
  cases o with
  | absent | int n => rfl
  | list items =>
    rw [filled_list]
    rfl
  | json v =>
    rw [filled, equals_json_json]
    cases v <;> rfl

theorem equalsItems_filled (h : ∀ x ∈ xs, ∀ y ∈ ys, x.equals true y = x.filled.equals false y.filled) :
    equalsItems true xs ys = equalsItems false (xs.map filled) (ys.map filled) := by
  rw [Bool.eq_iff_iff, equalsItems_iff, equalsItems_iff, List.length_map, List.length_map, List.zip_map,
    List.forall_mem_map]
  apply and_congr_right'
  apply forall₂_congr
  intro p hp
  rw [h p.1 (List.of_mem_zip hp).1 p.2 (List.of_mem_zip hp).2, Prod.map_fst, Prod.map_snd]

/-- equality with the setting is equality without it after filling -/
theorem equals_filled (a b : Operand) : a.equals true b = a.filled.equals false b.filled := by
  induction a, b using pair_induction with
  | symm a b h => rw [equals_comm b a, equals_comm b.filled a.filled, h]
  | absent b =>
    rw [filled, null_equals_filled, equals_absent_left]
    cases b <;> rfl
  | int n b => rw [filled, equals_int_left, equals_int_left, compareInt_filled]
  | json v w => rw [filled, filled, equals_json_json, equals_json_json]
  | list items b ih =>
    rw [filled_list, equals_list_left, equals_list_left, elements?_filled]
    cases hb : b.elements? with
    | none => rfl
    | some others => exact equalsItems_filled (ih others hb)

theorem equalsItems_of_strict (h : ∀ x ∈ xs, ∀ y ∈ ys, x.equals false y = true → x.equals true y = true)
    (heq : equalsItems false xs ys = true) : equalsItems true xs ys = true := by
  rw [equalsItems_iff] at heq ⊢
  refine ⟨heq.1, fun p hp => ?_⟩
  exact h p.1 (List.of_mem_zip hp).1 p.2 (List.of_mem_zip hp).2 (heq.2 p hp)

/-- what is equal without the setting is equal with it -/
theorem equals_of_strict {a b : Operand} (h : a.equals false b = true) : a.equals true b = true := by
  induction a, b using pair_induction with
  | symm a b ih =>
    rw [equals_comm] at h ⊢
    exact ih h
  | absent b =>
    rw [equals_absent_left] at h ⊢
    cases b with
    | absent => rfl
    | json v | int n | list items => cases h
  | int n b =>
    rw [equals_int_left] at h ⊢
    exact h
  | json v w =>
    rw [equals_json_json] at h ⊢
    exact h
  | list items b ih =>
    rw [equals_list_left] at h ⊢
    cases hb : b.elements? with
    | none =>
      rw [hb] at h
      cases h
    | some others =>
      rw [hb] at h
      exact equalsItems_of_strict (ih others hb) h

/-- **Where absent equals null, equality reads what is absent as null, and does nothing else.** Two operands are equal under
that setting just when they are equal without it after null is put for everything absent in them, at the top and in lists
at any depth. So what is equal without the setting is equal with it. -/
theorem loose_equality_reads_null (a b : Operand) :
    a.equals true b = a.filled.equals false b.filled ∧ (a.equals false b = true → a.equals true b = true) :=
  ⟨equals_filled a b, equals_of_strict⟩

/-- a missing member inside a list meets the null of an array only under the setting, and another missing member always -/
theorem missing_members :
    let count : Operand := .json (.number (.int ⟨300, by decide, by decide⟩))
    let written : Operand := .list [.list [.absent, .int 300], .absent]
    let read : Operand := .list [.list [.absent, count], .absent]
    let stored : Operand := .list [.json (.array [.null, .string "300"]), .json .null]
    (written.equals true stored = true ∧ written.equals false stored = false) ∧
      (written.equals false read = true ∧ written.equals true read = true) := by
  intro count written read stored
  have hstrict : written.equals false read = true := by decide +kernel
  refine ⟨⟨?_, by decide +kernel⟩, hstrict, (loose_equality_reads_null written read).2 hstrict⟩
  rw [(loose_equality_reads_null written stored).1]
  decide +kernel

end Operand

end Proviso
