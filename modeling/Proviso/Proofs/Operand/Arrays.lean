/-
Lists in brackets compare like the arrays they stand for.

An operand may hold an array whole, as a JSON value, or written out as a list of its items, and each item again in either
way (`WrittenOut`). Written out or not, it has elements just when the value is an array, and they stand for the items
(`elements_of_writtenOut`); lists are equal element by element, as arrays are. So the way in which an operand holds its
arrays makes no difference to what it is equal to (`equals_written_out`).
-/
import Mathlib.Data.List.Forall2
import Proviso.Eval
import Proviso.Proofs.Operand.Equality

namespace Proviso

/-- The operand is the value with some of its arrays written out as lists: none, or the value itself and any of its items
that are arrays, and so on inwards. -/
inductive Json.WrittenOut : Json → Operand → Prop
  | whole (v : Json) : WrittenOut v (.json v)
  | items {vs : List Json} {os : List Operand} (h : List.Forall₂ WrittenOut vs os) : WrittenOut (.array vs) (.list os)

/-- an array is the same as an array with the same items in turn, and as nothing else -/
theorem Json.array_same (vs : List Json) (w : Json) : (Json.array vs).same w = w.array?.any (sameItems vs ·) := by
  cases w with
  | array ws => rw [same, array?, Option.any_some]
  | null | bool | number | string | object => simp [same, array?]

namespace Operand

variable {loose : Bool} {v w : Json} {vs ws : List Json} {a b : Operand} {xs ys : List Operand}

/-- an operand has elements when the value that it stands for is an array, and they stand for the items -/
theorem elements_of_writtenOut (h : v.WrittenOut a) :
    Option.Rel (List.Forall₂ Json.WrittenOut) v.array? a.elements? := by
  cases h with
  | items hitems => exact .some hitems
  | whole =>
    cases v with
    | array items => exact .some (List.forall₂_map_right_iff.2 (List.forall₂_same.2 fun v _ => .whole v))
    | null | bool | number | string | object => exact .none

theorem equalsItems_of_writtenOut (hxs : List.Forall₂ Json.WrittenOut vs xs) (hys : List.Forall₂ Json.WrittenOut ws ys)
    (h : ∀ x ∈ xs, ∀ y ∈ ys, ∀ v w : Json, v.WrittenOut x → w.WrittenOut y → x.equals loose y = v.same w) :
    equalsItems loose xs ys = Json.sameItems vs ws := by
  induction hxs generalizing ws ys with
  | nil => cases hys <;> rfl
  | cons hx _ ih =>
    cases hys with
    | nil => rfl
    | cons hy hys =>
      have hfirst := h _ List.mem_cons_self _ List.mem_cons_self _ _ hx hy
      have hrest := ih hys fun x hx y hy => h x (List.mem_cons_of_mem _ hx) y (List.mem_cons_of_mem _ hy)
      rw [equalsItems, Json.sameItems, hfirst, hrest]

/-- **Lists compare like the arrays they stand for.** Two operands that stand for values, each with any of its arrays written
out as lists, are equal just when the values are the same, whether or not what is absent equals null. -/
theorem equals_written_out (ha : v.WrittenOut a) (hb : w.WrittenOut b) (loose : Bool) :
    a.equals loose b = v.same w := by
  induction a, b using pair_induction generalizing v w with
  | symm a b ih =>
    rw [equals_comm, Json.same_comm]
    exact ih hb ha
  | absent b => cases ha
  | int n b => cases ha
  | json v w =>
    cases ha
    cases hb
    exact equals_json_json v w
  | list items b ih =>
    cases ha with
    | items hitems =>
      rw [equals_list_left, Json.array_same]
      have helements := elements_of_writtenOut hb
      generalize w.array? = members, hothers : b.elements? = others at helements ⊢
      cases helements with
      | none => rfl
      | some hmembers =>
        exact equalsItems_of_writtenOut hitems hmembers fun x hx y hy _ _ hv hw => ih _ hothers x hx y hy hv hw

/-- a literal that writes out the first row against a list that writes out the second, where 1 is 1.0, and against an array
whose second row is longer -/
theorem rows_written_out :
    let one : Json := .number (.int ⟨1, by decide, by decide⟩)
    let rows : Json := .array [.array [one, .null], .array [.string "x"]]
    let rounded : Json := .array [.array [.ofDouble (.ofInt 1), .null], .array [.string "x"]]
    let longer : Json := .array [.array [one, .null], .array [.string "x", .null]]
    let env : Env := { context := .object [("rows", rows)], options := {}, clock := ⟨0, 0, 0⟩ }
    let cell (segments : List Segment) : Expr := .field ⟨"rows", segments⟩
    let literal : Expr := .array [.array [cell [.index 0, .index 0], cell [.index 0, .index 1]], cell [.index 1]]
    let list : Operand := .list [.json (.array [.ofDouble (.ofInt 1), .null]), .list [.json (.string "x")]]
    rows.WrittenOut (literal.eval env) ∧ rounded.WrittenOut list ∧
      (literal.eval env).equals true list = true ∧ (literal.eval env).equals true (.json longer) = false := by
  intro one rows rounded longer env cell literal list
  have hliteral : rows.WrittenOut (literal.eval env) :=
    .items (.cons (.items (.cons (.whole _) (.cons (.whole _) .nil))) (.cons (.whole _) .nil))
  have hlist : rounded.WrittenOut list :=
    .items (.cons (.whole _) (.cons (.items (.cons (.whole _) .nil)) .nil))
  refine ⟨hliteral, hlist, ?_, ?_⟩
  · rw [equals_written_out hliteral hlist]
    decide +kernel
  · rw [equals_written_out hliteral (.whole longer)]
    decide +kernel

end Operand

end Proviso
