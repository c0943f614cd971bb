/-
Deep equality of values.

Two values are the same when they are alike on the outside and wherever one goes into them, one comes to parts that are the
same, or to nothing in both (`array_same_iff`, `object_same_iff`). For objects this takes a count: the fields of the one
are looked up in the other only, and that there are no others in there follows from the number of names
(`Record.keys_subset_of_size_eq`). From the way into the values it is plain that deep equality is an equivalence
(`deep_equality_is_equivalence`).
-/
import Mathlib.Data.List.Perm.Subperm
import Proviso.Json

namespace Proviso

/-! ## Records as maps -/

namespace Record

variable {r r' : Record} {key : String} {v : Json}

theorem mem_visible {hidden : List String} :
    (key, v) ∈ visible hidden r ↔ key ∉ hidden ∧ r.get? key = some v := by
  induction r generalizing hidden with
  | nil => simp [visible, get?]
  | cons field rest ih =>
    obtain ⟨name, w⟩ := field
    rw [visible, get?]
    by_cases hname : name = key
    · subst hname
      by_cases hhidden : name ∈ hidden
      · simp [hhidden, ih]
      · simp [hhidden, ih, eq_comm]
    · have hne : key ≠ name := fun h => hname h.symm
      by_cases hhidden : name ∈ hidden
      · simp [hhidden, ih, hname]
      · simp [hhidden, ih, hname, hne]

/-- the names of a record are those under which there is a value -/
theorem mem_keys : key ∈ r.keys ↔ ∃ v, r.get? key = some v := by
  simp only [keys, entries, List.mem_map]
  constructor
  · rintro ⟨⟨name, v⟩, hmem, rfl⟩
    exact ⟨v, (mem_visible.1 hmem).2⟩
  · rintro ⟨v, hget⟩
    exact ⟨(key, v), mem_visible.2 ⟨List.not_mem_nil, hget⟩, rfl⟩

/-- the values of a record are those that stand under a name -/
theorem mem_values : v ∈ r.values ↔ ∃ key, r.get? key = some v := by
  simp only [values, entries, List.mem_map]
  constructor
  · rintro ⟨⟨key, w⟩, hmem, rfl⟩
    exact ⟨key, (mem_visible.1 hmem).2⟩
  · rintro ⟨key, hget⟩
    exact ⟨(key, v), mem_visible.2 ⟨List.not_mem_nil, hget⟩, rfl⟩

theorem nodup_visible (hidden : List String) (r : Record) : ((visible hidden r).map (·.1)).Nodup := by
  induction r generalizing hidden with
  | nil => exact List.nodup_nil
  | cons field rest ih =>
    obtain ⟨name, w⟩ := field
    rw [visible]
    split
    · exact ih hidden
    · refine List.nodup_cons.2 ⟨?_, ih (name :: hidden)⟩
      intro hmem
      obtain ⟨⟨other, v⟩, hv, hother⟩ := List.mem_map.1 hmem
      exact (mem_visible.1 hv).1 (List.mem_cons.2 (.inl hother))

theorem nodup_keys (r : Record) : r.keys.Nodup := nodup_visible [] r

theorem length_keys (r : Record) : r.keys.length = r.size := List.length_map _

/-- a record whose names are all in another of the same size has all names of the other -/
theorem keys_subset_of_size_eq (hsub : r.keys ⊆ r'.keys) (hsize : r.size = r'.size) : r'.keys ⊆ r.keys := by
  have hlength : r'.keys.length ≤ r.keys.length := by
    rw [length_keys, length_keys]
    exact Nat.le_of_eq hsize.symm
  exact ((List.subperm_of_subset r.nodup_keys hsub).perm_of_length_le hlength).symm.subset

theorem size_eq_of_keys (h : ∀ key, key ∈ r.keys ↔ key ∈ r'.keys) : r.size = r'.size := by
  have hperm : r.keys.Perm r'.keys := (List.perm_ext_iff_of_nodup r.nodup_keys r'.nodup_keys).2 h
  rw [← length_keys, ← length_keys]
  exact hperm.length_eq

theorem mem_of_get? (h : r.get? key = some v) : (key, v) ∈ r := by
  induction r with
  | nil => cases h
  | cons field rest ih =>
    obtain ⟨name, w⟩ := field
    rw [get?] at h
    split at h
    · next hname =>
      obtain rfl := Option.some.inj h
      rw [hname]
      exact List.mem_cons_self
    · exact List.mem_cons_of_mem _ (ih h)

theorem sizeOf_lt_of_get? (h : r.get? key = some v) : sizeOf v < sizeOf r := by
  have hfield : sizeOf (key, v) < sizeOf r := List.sizeOf_lt_of_mem (mem_of_get? h)
  rw [Prod.mk.sizeOf_spec] at hfield
  omega

end Record

/-! ## Parts that correspond -/

section

variable {α : Type} {related : α → α → Prop} {x y z : Option α}

theorem exists_iff_of_rel (hxy : Option.Rel related x y) : (∃ a, x = some a) ↔ ∃ b, y = some b := by
  cases hxy <;> simp

theorem exists_of_rel {a : α} (hxy : Option.Rel related x y) (hx : x = some a) : ∃ b, y = some b ∧ related a b := by
  cases hxy with
  | none => cases hx
  | some hab =>
    obtain rfl := Option.some.inj hx
    exact ⟨_, rfl, hab⟩

theorem rel_self (h : ∀ a, x = some a → related a a) : Option.Rel related x x := by
  cases x with
  | none => exact .none
  | some a => exact .some (h a rfl)

theorem rel_mono {related' : α → α → Prop} (hxy : Option.Rel related x y)
    (h : ∀ {a b}, related a b → related' a b) : Option.Rel related' x y := by
  cases hxy with
  | none => exact .none
  | some hab => exact .some (h hab)

theorem rel_swap (hxy : Option.Rel related x y) (h : ∀ a b, x = some a → related a b → related b a) :
    Option.Rel related y x := by
  cases hxy with
  | none => exact .none
  | some hab => exact .some (h _ _ rfl hab)

theorem rel_trans (hxy : Option.Rel related x y) (hyz : Option.Rel related y z)
    (h : ∀ a b c, x = some a → related a b → related b c → related a c) : Option.Rel related x z := by
  cases hxy with
  | none =>
    cases hyz
    exact .none
  | some hab =>
    cases hyz with
    | some hbc => exact .some (h _ _ _ rfl hab hbc)

end

namespace Double

/-- doubles are equal when they stand at one place -/
theorem equal_iff {a b : Double} : a.equal b = true ↔ ∃ x, a.key = some x ∧ b.key = some x := by
  rw [equal, compare]
  cases ha : a.key with
  | none => simp
  | some x =>
    cases hb : b.key with
    | none => simp
    | some y =>
      simp only [beq_iff_eq, Option.some.injEq, Int.compare_eq_eq]
      constructor
      · rintro rfl
        exact ⟨x, rfl, rfl⟩
      · rintro ⟨z, rfl, rfl⟩
        rfl

end Double

theorem Number.toDouble_ne_nan (n : Number) : n.toDouble ≠ .nan := by
  cases n with
  | int w =>
    simp only [toDouble, Double.ofInt, Double.ofUnits]
    split <;> simp
  | float x => simp [toDouble]

namespace Json

/-- induction over values: over an array by its items and over an object by the values under its names -/
@[elab_as_elim]
theorem induction {motive : Json → Prop} (null : motive .null) (bool : ∀ b, motive (.bool b))
    (number : ∀ n, motive (.number n)) (string : ∀ s, motive (.string s))
    (array : ∀ items, (∀ v ∈ items, motive v) → motive (.array items))
    (object : ∀ fields, (∀ key v, Record.get? fields key = some v → motive v) → motive (.object fields)) :
    ∀ v, motive v
  | .null => null
  | .bool b => bool b
  | .number n => number n
  | .string s => string s
  | .array items => array items fun v _ => induction null bool number string array object v
  | .object fields => object fields fun key v h =>
    have := Record.sizeOf_lt_of_get? h
    induction null bool number string array object v

/-- two values are the same, as deep equality sees it -/
def Same (v w : Json) : Prop := v.same w = true

variable {u v w : Json} {b : Bool} {n : Number} {text : String} {xs ys : List Json} {fields others : Record}

/-! ## Inside a value -/

theorem null_same_iff : Same .null w ↔ .null = w := by
  cases w <;> simp [Same, same]

theorem bool_same_iff : Same (.bool b) w ↔ .bool b = w := by
  cases w <;> simp [Same, same]

theorem string_same_iff : Same (.string text) w ↔ .string text = w := by
  cases w <;> simp [Same, same]

theorem number_same_iff : Same (.number n) w ↔ ∃ m, w = .number m ∧ n.toDouble.equal m.toDouble = true := by
  cases w <;> simp [Same, same]

theorem sameItems_iff : sameItems xs ys = true ↔ ∀ i : Nat, Option.Rel Same xs[i]? ys[i]? := by
  induction xs generalizing ys with
  | nil =>
    cases ys with
    | nil => simp [sameItems]
    | cons y ys =>
      constructor
      · intro h
        cases h
      · intro h
        cases h 0
  | cons x xs ih =>
    cases ys with
    | nil =>
      constructor
      · intro h
        cases h
      · intro h
        cases h 0
    | cons y ys =>
      rw [sameItems, Bool.and_eq_true, ih]
      constructor
      · rintro ⟨hfirst, hrest⟩ i
        cases i with
        | zero => exact .some hfirst
        | succ i => exact hrest i
      · intro h
        refine ⟨?_, fun i => h (i + 1)⟩
        cases h 0 with
        | some hfirst => exact hfirst

/-- what is the same as an array is an array, with the same items in turn -/
theorem array_same_iff : Same (.array xs) w ↔ ∃ ys, w = .array ys ∧ ∀ i : Nat, Option.Rel Same xs[i]? ys[i]? := by
  cases w with
  | array ys => simp [Same, same, sameItems_iff]
  | null | bool | number | string | object => simp [Same, same]

theorem sameFields_cons {hidden : List String} {name : String} :
    sameFields hidden ((name, v) :: fields) others = true ↔
      (name ∈ hidden ∨ ∃ w, others.get? name = some w ∧ v.Same w) ∧ sameFields (name :: hidden) fields others = true := by
  rw [sameFields]
  cases others.get? name with
  | none => simp
  | some w => simp [Same]

/-- every field that counts has its equal under the same name -/
theorem sameFields_iff {hidden : List String} : sameFields hidden fields others = true ↔
    ∀ key v, key ∉ hidden → fields.get? key = some v → ∃ w, others.get? key = some w ∧ v.Same w := by
  induction fields generalizing hidden with
  | nil => simp [sameFields, Record.get?]
  | cons field rest ih =>
    obtain ⟨name, v⟩ := field
    rw [sameFields_cons, ih]
    constructor
    · intro h key u hkey hget
      rw [Record.get?] at hget
      split at hget
      · next hname =>
        subst hname
        obtain rfl := Option.some.inj hget
        exact h.1.resolve_left hkey
      · next hname => exact h.2 key u (by simp [hkey, Ne.symm hname]) hget
    · intro h
      constructor
      · by_cases hname : name ∈ hidden
        · exact .inl hname
        · exact .inr (h name v hname (by rw [Record.get?, if_pos rfl]))
      · intro key u hkey hget
        rw [List.mem_cons, not_or] at hkey
        exact h key u hkey.2 (by rw [Record.get?, if_neg (Ne.symm hkey.1), hget])

/-- what is the same as an object is an object, with the same values under the same names -/
theorem object_same_iff : Same (.object fields) w ↔
    ∃ others, w = .object others ∧ ∀ key, Option.Rel Same (Record.get? fields key) (Record.get? others key) := by
  cases w with
  | object others =>
    simp only [Same, same, Bool.and_eq_true, beq_iff_eq, sameFields_iff, Json.object.injEq, exists_eq_left']
    constructor
    · intro h key
      -- under a name that `fields` has not there is nothing in the other object either: it has no more names
      have hsub : Record.keys fields ⊆ Record.keys others := by
        intro name hname
        obtain ⟨v, hv⟩ := Record.mem_keys.1 hname
        obtain ⟨w, hw, -⟩ := h.2 name v List.not_mem_nil hv
        exact Record.mem_keys.2 ⟨w, hw⟩
      cases hv : Record.get? fields key with
      | some v =>
        obtain ⟨w, hw, hsame⟩ := h.2 key v List.not_mem_nil hv
        rw [hw]
        exact .some hsame
      | none =>
        cases hw : Record.get? others key with
        | none => exact .none
        | some w =>
          have hkey := Record.keys_subset_of_size_eq hsub h.1 (Record.mem_keys.2 ⟨w, hw⟩)
          obtain ⟨v, hv'⟩ := Record.mem_keys.1 hkey
          rw [hv] at hv'
          cases hv'
    · intro h
      constructor
      · apply Record.size_eq_of_keys
        intro key
        rw [Record.mem_keys, Record.mem_keys]
        exact exists_iff_of_rel (h key)
      · intro key v _ hv
        exact exists_of_rel (h key) hv
  | null | bool | number | string | array => simp [Same, same]

/-! ## An equivalence -/

theorem same_self (v : Json) : v.Same v := by
  induction v using Json.induction with
  | null => exact null_same_iff.2 rfl
  | bool b => exact bool_same_iff.2 rfl
  | number n => exact number_same_iff.2 ⟨n, rfl, Double.equal_self _ n.toDouble_ne_nan⟩
  | string s => exact string_same_iff.2 rfl
  | array items ih => exact array_same_iff.2 ⟨items, rfl, fun i => rel_self fun v hv => ih v (List.mem_of_getElem? hv)⟩
  | object fields ih => exact object_same_iff.2 ⟨fields, rfl, fun key => rel_self fun v hv => ih key v hv⟩

theorem Same.symm (h : v.Same w) : w.Same v := by
  induction v using Json.induction generalizing w with
  | null =>
    obtain rfl := null_same_iff.1 h
    exact h
  | bool b =>
    obtain rfl := bool_same_iff.1 h
    exact h
  | number n =>
    obtain ⟨m, rfl, hequal⟩ := number_same_iff.1 h
    obtain ⟨x, hn, hm⟩ := Double.equal_iff.1 hequal
    exact number_same_iff.2 ⟨n, rfl, Double.equal_iff.2 ⟨x, hm, hn⟩⟩
  | string s =>
    obtain rfl := string_same_iff.1 h
    exact h
  | array items ih =>
    obtain ⟨others, rfl, hitems⟩ := array_same_iff.1 h
    refine array_same_iff.2 ⟨items, rfl, fun i => rel_swap (hitems i) ?_⟩
    intro v w hv hsame
    exact ih v (List.mem_of_getElem? hv) hsame
  | object fields ih =>
    obtain ⟨others, rfl, hfields⟩ := object_same_iff.1 h
    refine object_same_iff.2 ⟨fields, rfl, fun key => rel_swap (hfields key) ?_⟩
    intro v w hv hsame
    exact ih key v hv hsame

theorem same_comm (v w : Json) : v.same w = w.same v := by
  rw [Bool.eq_iff_iff]
  exact ⟨Same.symm, Same.symm⟩

theorem Same.trans (h : u.Same v) (h' : v.Same w) : u.Same w := by
  induction u using Json.induction generalizing v w with
  | null =>
    obtain rfl := null_same_iff.1 h
    exact h'
  | bool b =>
    obtain rfl := bool_same_iff.1 h
    exact h'
  | number n =>
    obtain ⟨m, rfl, hequal⟩ := number_same_iff.1 h
    obtain ⟨k, rfl, hequal'⟩ := number_same_iff.1 h'
    obtain ⟨x, hn, hm⟩ := Double.equal_iff.1 hequal
    obtain ⟨y, hm', hk⟩ := Double.equal_iff.1 hequal'
    obtain rfl := Option.some.inj (hm.symm.trans hm')
    exact number_same_iff.2 ⟨k, rfl, Double.equal_iff.2 ⟨x, hn, hk⟩⟩
  | string s =>
    obtain rfl := string_same_iff.1 h
    exact h'
  | array items ih =>
    obtain ⟨others, rfl, hitems⟩ := array_same_iff.1 h
    obtain ⟨more, rfl, hitems'⟩ := array_same_iff.1 h'
    refine array_same_iff.2 ⟨more, rfl, fun i => rel_trans (hitems i) (hitems' i) ?_⟩
    intro a b c ha hab hbc
    exact ih a (List.mem_of_getElem? ha) hab hbc
  | object fields ih =>
    obtain ⟨others, rfl, hfields⟩ := object_same_iff.1 h
    obtain ⟨more, rfl, hfields'⟩ := object_same_iff.1 h'
    refine object_same_iff.2 ⟨more, rfl, fun key => rel_trans (hfields key) (hfields' key) ?_⟩
    intro a b c ha hab hbc
    exact ih key a ha hab hbc

/-- **Deep equality of values is an equivalence:** every value is the same as itself, and whether two are the same does
not depend on their order or on a third between them. -/
theorem deep_equality_is_equivalence : Equivalence fun v w : Json => v.same w = true :=
  ⟨same_self, Same.symm, Same.trans⟩

end Json

end Proviso
