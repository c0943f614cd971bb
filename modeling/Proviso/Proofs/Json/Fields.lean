/-
What the fields of a record hold.

A value writes an integer when it is that JSON integer or the text that the integer is printed as (`toInt?_eq_some`), and
no other value does. A field stands for a list when it is an array, and for the empty list when it is missing or null
(`listAt?_eq_some`).
-/
import Mathlib.Data.List.Forall2
import Proviso.Json
import Proviso.Proofs.Decimal.Canonical

namespace Proviso

/-! ## Lists read item by item -/

/-- reading the items of a list one by one: the first, and then the others -/
theorem mapM_cons_eq_some {α β : Type} {f : α → Option β} {x : α} {xs : List α} {zs : List β} :
    (x :: xs).mapM f = some zs ↔ ∃ y ys, f x = some y ∧ xs.mapM f = some ys ∧ zs = y :: ys := by
  rw [List.mapM_cons]
  constructor
  · intro h
    obtain ⟨y, hy, h⟩ := Option.bind_eq_some_iff.1 h
    obtain ⟨ys, hys, h⟩ := Option.bind_eq_some_iff.1 h
    exact ⟨y, ys, hy, hys, (Option.some.inj h).symm⟩
  · rintro ⟨y, ys, hy, hys, rfl⟩
    rw [hy, hys]
    rfl

/-- a list is read when each of its items is, in turn -/
theorem mapM_eq_some_iff_forall₂ {α β : Type} {f : α → Option β} {xs : List α} {zs : List β} :
    xs.mapM f = some zs ↔ List.Forall₂ (fun x z => f x = some z) xs zs := by
  induction xs generalizing zs with
  | nil =>
    rw [List.mapM_nil, List.forall₂_nil_left_iff]
    exact ⟨fun h => (Option.some.inj h).symm, fun h => congrArg some h.symm⟩
  | cons x xs ih =>
    rw [mapM_cons_eq_some, List.forall₂_cons_left_iff]
    simp only [ih, exists_and_left]

/-- each thing that is read is read from an item -/
theorem exists_of_mem_mapM {α β : Type} {f : α → Option β} {xs : List α} {zs : List β} (h : xs.mapM f = some zs) {z : β}
    (hz : z ∈ zs) : ∃ x ∈ xs, f x = some z := by
  have hread := mapM_eq_some_iff_forall₂.1 h
  clear h
  induction hread with
  | nil => cases hz
  | @cons x y xs ys hy _ ih =>
    rcases List.mem_cons.1 hz with rfl | hmem
    · exact ⟨x, List.mem_cons_self, hy⟩
    · obtain ⟨x', hx', hread⟩ := ih hmem
      exact ⟨x', List.mem_cons_of_mem x hx', hread⟩

/-- a list in another order is read as the same things in another order -/
theorem mapM_perm_eq_some {α β : Type} {f : α → Option β} {xs ys : List α} {zs : List β} (h : xs.Perm ys)
    (hzs : xs.mapM f = some zs) : ∃ zs', ys.mapM f = some zs' ∧ zs.Perm zs' := by
  induction h generalizing zs with
  | nil => exact ⟨zs, hzs, .refl zs⟩
  | cons x _ ih =>
    obtain ⟨y, rest, hy, hrest, rfl⟩ := mapM_cons_eq_some.1 hzs
    obtain ⟨rest', hrest', hperm⟩ := ih hrest
    exact ⟨y :: rest', mapM_cons_eq_some.2 ⟨y, rest', hy, hrest', rfl⟩, hperm.cons y⟩
  | swap x x' _ =>
    obtain ⟨y', rest', hy', hrest', rfl⟩ := mapM_cons_eq_some.1 hzs
    obtain ⟨y, rest, hy, hrest, rfl⟩ := mapM_cons_eq_some.1 hrest'
    have hothers := mapM_cons_eq_some.2 ⟨y', rest, hy', hrest, rfl⟩
    exact ⟨y :: y' :: rest, mapM_cons_eq_some.2 ⟨y, _, hy, hothers, rfl⟩, .swap y y' rest⟩
  | trans _ _ ih ih' =>
    obtain ⟨zs', hzs', hperm⟩ := ih hzs
    obtain ⟨zs'', hzs'', hperm'⟩ := ih' hzs'
    exact ⟨zs'', hzs'', hperm.trans hperm'⟩

/-- whether a list can be read does not depend on its order, and what is read changes its order at most -/
theorem mapM_perm {α β : Type} {f : α → Option β} {xs ys : List α} (h : xs.Perm ys) :
    Option.Rel List.Perm (xs.mapM f) (ys.mapM f) := by
  cases hxs : xs.mapM f with
  | some zs =>
    obtain ⟨zs', hys, hperm⟩ := mapM_perm_eq_some h hxs
    rw [hys]
    exact .some hperm
  | none =>
    cases hys : ys.mapM f with
    | none => exact .none
    | some zs =>
      obtain ⟨zs', hxs', -⟩ := mapM_perm_eq_some h.symm hys
      rw [hxs] at hxs'
      cases hxs'

/-- a part of a list that can be read can be read too, as a part of what is read -/
theorem mapM_sublist_eq_some {α β : Type} {f : α → Option β} {xs ys : List α} {zs : List β} (h : ys.Sublist xs)
    (hzs : xs.mapM f = some zs) : ∃ zs', ys.mapM f = some zs' ∧ zs'.Sublist zs := by
  induction h generalizing zs with
  | slnil => exact ⟨[], rfl, zs.nil_sublist⟩
  | cons x _ ih =>
    obtain ⟨y, rest, -, hrest, rfl⟩ := mapM_cons_eq_some.1 hzs
    obtain ⟨rest', hrest', hsub⟩ := ih hrest
    exact ⟨rest', hrest', hsub.cons y⟩
  | cons_cons x _ ih =>
    obtain ⟨y, rest, hy, hrest, rfl⟩ := mapM_cons_eq_some.1 hzs
    obtain ⟨rest', hrest', hsub⟩ := ih hrest
    exact ⟨y :: rest', mapM_cons_eq_some.2 ⟨y, rest', hy, hrest', rfl⟩, hsub.cons_cons y⟩

namespace Json

variable {v : Json} {key : String} {n : Int} {items : List Json}

/-! ## Integers -/

/-- the value writes an integer: as a JSON integer, or as the text that the integer is printed as -/
inductive Writes : Json → Int → Prop
  | number (n : Word) : Writes (.number (.int n)) n.val
  | text (n : Int) : Writes (.string (toString n)) n

theorem toInt?_eq_some : v.toInt? = some n ↔ v.Writes n := by
  constructor
  · intro h
    cases v with
    | number k =>
      cases k with
      | int w =>
        obtain rfl := Option.some.inj h
        exact .number w
      | float x => simp [toInt?] at h
    | string s =>
      obtain rfl : s = toString n := String.toList_injective (Decimal.eq_toString_of_canonical? h)
      exact .text n
    | null | bool | array | object => simp [toInt?] at h
  · intro h
    cases h with
    | number w => rfl
    | text => exact Decimal.canonical?_toString n

/-- the field of that name writes an integer -/
def HasInt (v : Json) (key : String) (n : Int) : Prop := ∃ w, v.get? key = some w ∧ w.Writes n

theorem intAt?_eq_some : v.intAt? key = some n ↔ v.HasInt key n := by
  simp only [intAt?, HasInt, Option.bind_eq_some_iff, toInt?_eq_some]

theorem HasInt.unique {n' : Int} (h : v.HasInt key n) (h' : v.HasInt key n') : n = n' :=
  Option.some.inj ((intAt?_eq_some.2 h).symm.trans (intAt?_eq_some.2 h'))

/-! ## Lists -/

/-- the list that a field stands for: an array, or no items when the field is missing or null -/
inductive HasList (v : Json) (key : String) : List Json → Prop
  | missing (h : v.get? key = none) : HasList v key []
  | null (h : v.get? key = some .null) : HasList v key []
  | array {items : List Json} (h : v.get? key = some (.array items)) : HasList v key items

theorem listAt?_eq_some : v.listAt? key = some items ↔ v.HasList key items := by
  constructor
  · intro h
    unfold listAt? at h
    split at h
    · next hfield =>
      obtain rfl := Option.some.inj h
      exact .missing hfield
    · next hfield =>
      obtain rfl := Option.some.inj h
      exact .null hfield
    · next hfield =>
      obtain rfl := Option.some.inj h
      exact .array hfield
    · cases h
  · intro h
    cases h with
    | missing h | null h | array h => rw [listAt?, h]

theorem HasList.unique {items' : List Json} (h : v.HasList key items) (h' : v.HasList key items') : items = items' :=
  Option.some.inj ((listAt?_eq_some.2 h).symm.trans (listAt?_eq_some.2 h'))

/-- a field that is neither missing nor null nor an array stands for no list -/
theorem listAt?_eq_none : v.listAt? key = none ↔ ¬ ∃ items, v.HasList key items := by
  simp only [Option.eq_none_iff_forall_ne_some, ne_eq, listAt?_eq_some, not_exists]

/-! ## Objects -/

/-- the value is an object -/
def IsObject (v : Json) : Prop := ∃ fields, v = .object fields

theorem isSome_object? : v.object?.isSome = true ↔ v.IsObject := by
  cases v <;> simp [object?, IsObject]

end Json

end Proviso
