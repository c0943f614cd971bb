/-
Sums of amounts are exact, in either form.

A sum over a field of some records counts what the keys of the field lead to in each record, and passes over the records in
which that is missing or null. There are two ways to those values: a dotted name is looked up in the records one by one,
and field paths are resolved from the top. Both come to the same sum (`eval_sumOverField`, `eval_sumOverMembers`), which is
that of the integers written, and no sum at all when one value writes none (`sumAt_eq_some`). As a sum of integers it
depends neither on the order of the records nor on where they are divided (`sums_exact`).
-/
import Mathlib.Algebra.BigOperators.Group.List.Basic
import Mathlib.Data.List.Forall2
import Proviso.Eval
import Proviso.Proofs.Json.Fields
import Proviso.Proofs.Path.Dotted

namespace Proviso

-- a sum starts at the zero of the core library, whatever else is in scope
attribute [local instance (2000)] Zero.ofOfNat0

/-! ## What is counted -/

namespace Json

variable {keys : List String} {items xs ys vs : List Json} {ns : List Int} {n : Int}

/-- what the keys lead to in the items, apart from what is missing or null -/
def presentAt (keys : List String) (items : List Json) : List Json :=
  (items.filterMap (·.walk (keySteps keys))).filter fun v => !v.isNull

/-- the exact sum of what is present, when all of that writes integers -/
def sumAt (keys : List String) (items : List Json) : Option Int :=
  ((presentAt keys items).mapM toInt?).map List.sum

theorem mapM_toInt?_eq_some : vs.mapM toInt? = some ns ↔ List.Forall₂ Writes vs ns := by
  simp only [mapM_eq_some_iff_forall₂, toInt?_eq_some]

/-- the sum is that of the integers that the values present write -/
theorem sumAt_eq_some :
    sumAt keys items = some n ↔ ∃ amounts, List.Forall₂ Writes (presentAt keys items) amounts ∧ amounts.sum = n := by
  rw [sumAt, Option.map_eq_some_iff]
  simp only [mapM_toInt?_eq_some]

/-- there is no sum when a value is present that writes no integer -/
theorem sumAt_eq_none {v : Json} (hv : v ∈ presentAt keys items) (hnone : ∀ n, ¬ v.Writes n) :
    sumAt keys items = none := by
  rw [Option.eq_none_iff_forall_ne_some]
  intro n hsum
  obtain ⟨amounts, hamounts, -⟩ := sumAt_eq_some.1 hsum
  have hall : List.Forall₂ (fun v n => (∃ m, Writes v m) ∧ v.Writes n) (presentAt keys items) amounts :=
    hamounts.imp fun v n hvn => ⟨⟨n, hvn⟩, hvn⟩
  obtain ⟨m, hm⟩ := ((List.forall₂_and_left _ _).1 hall).1 v hv
  exact hnone m hm

theorem sumAt_perm (h : xs.Perm ys) : sumAt keys xs = sumAt keys ys := by
  have hpresent : (presentAt keys xs).Perm (presentAt keys ys) := (h.filterMap _).filter _
  have hread := mapM_perm (f := toInt?) hpresent
  rw [sumAt, sumAt]
  generalize (presentAt keys xs).mapM toInt? = amounts, (presentAt keys ys).mapM toInt? = amounts' at hread
  cases hread with
  | none => rfl
  | some hperm => exact congrArg some hperm.sum_eq

/-- the sum of two parts is the sum of their sums -/
theorem sumAt_append : sumAt keys (xs ++ ys) = (sumAt keys xs).bind fun n => (sumAt keys ys).map fun m => n + m := by
  have hpresent : presentAt keys (xs ++ ys) = presentAt keys xs ++ presentAt keys ys := by
    rw [presentAt, List.filterMap_append, List.filter_append]
    rfl
  rw [sumAt, hpresent, List.mapM_append, sumAt, sumAt]
  cases (presentAt keys xs).mapM toInt? with
  | none => rfl
  | some ns =>
    cases (presentAt keys ys).mapM toInt? with
    | none => rfl
    | some ms => exact congrArg some List.sum_append_int

end Json

/-! ## What the builtin adds up -/

namespace Verdict

open Json

variable {keys : List String} {items : List Json} {source : Operand} {members : List Operand} {o : Option Int} {n : Int}

/-- the operand of a sum: false when there is none -/
def ofTotal : Option Int → Operand
  | some n => .int n
  | none => .no

theorem ofTotal_eq_int : ofTotal o = .int n ↔ o = some n := by
  cases o <;> simp [ofTotal, Operand.no, Operand.bool]

theorem ofTotal_eq_no : ofTotal o = .no ↔ o = none := by
  cases o <;> simp [ofTotal, Operand.no, Operand.bool]

/-- what is absent or null is left out, and the rest is added up -/
theorem total_eq (xs : List Operand) :
    total xs = ((xs.filter fun x => !x.isNullish).mapM Operand.toInt?).map List.sum := by
  induction xs with
  | nil => rfl
  | cons x rest ih =>
    rw [total, List.filter_cons]
    cases x.isNullish with
    | true => exact ih
    | false =>
      rw [if_neg Bool.false_ne_true, Bool.not_false, if_pos rfl, List.mapM_cons, ih]
      cases x.toInt? with
      | none => rfl
      | some n => cases (rest.filter fun x => !x.isNullish).mapM Operand.toInt? <;> rfl

/-- as operands, the values that the keys lead to in some items add up to their sum -/
theorem total_walked : total (items.map fun item => .ofOption (item.walk (keySteps keys))) = sumAt keys items := by
  have hcounted : ((items.map fun item => Operand.ofOption (item.walk (keySteps keys))).filter fun x => !x.isNullish) =
      (presentAt keys items).map .json := by
    rw [presentAt]
    induction items with
    | nil => rfl
    | cons item items ih =>
      rw [List.map_cons, List.filter_cons, List.filterMap_cons, ih]
      cases item.walk (keySteps keys) with
      | none => rfl
      | some v => cases hnull : v.isNull <;> simp [Operand.ofOption, Operand.isNullish, hnull]
  rw [total_eq, hcounted, List.mapM_map]
  rfl

theorem bigintSum_plain (h : source.elements? = some members) : bigintSum source none = ofTotal (total members) := by
  have hmembers : members.map (selected none) = members := List.map_id members
  simp only [bigintSum, h, hmembers]
  cases total members <;> rfl

theorem bigintSum_of_field (hkeys : DottedKeys keys) :
    bigintSum (.json (.array items)) (some (.json (.string (dotted keys)))) = ofTotal (sumAt keys items) := by
  have hfields : (items.map .json).map (selected (some (dotted keys))) =
      items.map fun item => .ofOption (item.walk (keySteps keys)) := by
    rw [List.map_map]
    apply List.map_congr_left
    intro item _
    rw [← lookupDotted_dotted hkeys]
    rfl
  simp only [bigintSum, Operand.elements?, hfields, total_walked]
  cases sumAt keys items <;> rfl

end Verdict

/-! ## From the expression to the sum -/

/-- the path goes on by some steps, from the value where it ends -/
theorem Env.resolve_append (env : Env) (p : Path) (steps : List Segment) :
    env.resolve { p with rest := p.rest ++ steps } = (env.resolve p).bind (·.walk steps) := by
  simp only [resolve]
  cases env.bindings.get? p.root with
  | some v => exact v.walk_append p.rest steps
  | none =>
    simp only [Json.resolve]
    cases env.context.get? p.root with
    | none => rfl
    | some v => exact v.walk_append p.rest steps

/-- the steps into an array that start at a member's position are steps into the member -/
theorem Json.walk_index {items : List Json} {i : Nat} (hi : i < items.length) (hlength : items.length ≤ 2 ^ 64)
    (steps : List Segment) : (Json.array items).walk (.index (UInt64.ofNat i) :: steps) = items[i].walk steps := by
  have hposition : (UInt64.ofNat i).toNat = i := UInt64.toNat_ofNat_of_lt' (Nat.lt_of_lt_of_le hi hlength)
  rw [walk, step, array?, Option.bind_some, hposition, List.getElem?_eq_getElem hi, Option.bind_some]

namespace Expr

open Json Verdict

/-- the sum over a field of the records at a path, as in `bigint_sum(records, 'usage.cost')` -/
def sumOverField (p : Path) (keys : List String) : Expr :=
  call .bigintSum [field p, literal (.string (dotted keys))]

/-- the sum of the fields of the single records, as in `bigint_sum([records[0].usage.cost, records[1].usage.cost])` -/
def sumOverMembers (p : Path) (keys : List String) (count : Nat) : Expr :=
  call .bigintSum [array ((List.range count).map fun i =>
    field { p with rest := p.rest ++ .index (UInt64.ofNat i) :: keySteps keys })]

variable {env : Env} {p : Path} {keys : List String} {items : List Json}

theorem eval_sumOverField (hkeys : DottedKeys keys) (hitems : env.resolve p = some (.array items)) :
    (sumOverField p keys).eval env = ofTotal (sumAt keys items) := by
  rw [← bigintSum_of_field hkeys]
  simp only [sumOverField, eval, evalItems, Builtin.apply, hitems]
  rfl

/-- the fields of an array's members, named one by one, have the operands that looking into the members gives -/
theorem eval_members (hitems : env.resolve p = some (.array items)) (hlength : items.length ≤ 2 ^ 64)
    (steps : List Segment) :
    ((List.range items.length).map fun i => field { p with rest := p.rest ++ .index (UInt64.ofNat i) :: steps }).map
      (eval env) = items.map fun item => .ofOption (item.walk steps) := by
  rw [List.map_map]
  apply List.ext_getElem (by simp)
  intro i hi hi'
  have hlt : i < items.length := by simpa using hi'
  rw [List.getElem_map, List.getElem_map, List.getElem_range, Function.comp_apply, eval, Env.resolve_append, hitems,
    Option.bind_some, walk_index hlt hlength]

/-- positions have 64 bits, so the members of an array that is no longer than that can be named one by one -/
theorem eval_sumOverMembers (hitems : env.resolve p = some (.array items)) (hlength : items.length ≤ 2 ^ 64) :
    (sumOverMembers p keys items.length).eval env = ofTotal (sumAt keys items) := by
  rw [← total_walked, ← eval_members hitems hlength, ← evalItems_eq_map]
  change bigintSum (.list _) none = _
  rw [bigintSum_plain rfl]

/-- **Sums of amounts are exact, in either form.** The sum over a field of the records in an array is that of the integers
which the values present write, and false when one of these writes none. It is the sum of the fields of the single records,
as far as positions of 64 bits go. It stays the same when the records are put into another order, and for records in two
parts it is the sum of the two sums, or false when one of these is. -/
theorem sums_exact (hkeys : DottedKeys keys) (hitems : env.resolve p = some (.array items)) :
    ((∀ amounts, List.Forall₂ Writes (presentAt keys items) amounts →
        (sumOverField p keys).eval env = .int amounts.sum) ∧
      ∀ v ∈ presentAt keys items, (∀ n, ¬ v.Writes n) → (sumOverField p keys).eval env = .no) ∧
    (items.length ≤ 2 ^ 64 → (sumOverField p keys).eval env = (sumOverMembers p keys items.length).eval env) ∧
    (∀ (env' : Env) (p' : Path) (items' : List Json), env'.resolve p' = some (.array items') → items.Perm items' →
      (sumOverField p' keys).eval env' = (sumOverField p keys).eval env) ∧
    ∀ (env' env'' : Env) (p' p'' : Path) (front rear : List Json), items = front ++ rear →
      env'.resolve p' = some (.array front) → env''.resolve p'' = some (.array rear) →
      (∀ n m, (sumOverField p' keys).eval env' = .int n → (sumOverField p'' keys).eval env'' = .int m →
        (sumOverField p keys).eval env = .int (n + m)) ∧
      ((sumOverField p' keys).eval env' = .no ∨ (sumOverField p'' keys).eval env'' = .no →
        (sumOverField p keys).eval env = .no) := by
  have hsum := eval_sumOverField hkeys hitems
  refine ⟨⟨fun amounts hamounts => ?_, fun v hv hnone => ?_⟩, fun hlength => ?_, fun env' p' items' hitems' hperm => ?_, ?_⟩
  · rw [hsum, ofTotal_eq_int]
    exact sumAt_eq_some.2 ⟨amounts, hamounts, rfl⟩
  · rw [hsum, ofTotal_eq_no]
    exact sumAt_eq_none hv hnone
  · rw [hsum, eval_sumOverMembers hitems hlength]
  · rw [hsum, eval_sumOverField hkeys hitems', sumAt_perm hperm]
  · rintro env' env'' p' p'' front rear rfl hfront hrear
    rw [hsum, eval_sumOverField hkeys hfront, eval_sumOverField hkeys hrear, sumAt_append]
    simp only [ofTotal_eq_int, ofTotal_eq_no]
    constructor
    · intro n m hn hm
      rw [hn, hm]
      rfl
    · rintro (hnone | hnone)
      · rw [hnone]
        rfl
      · rw [hnone]
        cases sumAt keys front <;> rfl

/-- thirty digits and a word, with a record between them that lacks the field and one in which it is null -/
theorem sum_of_costs :
    let record (usage : Record) : Json := .object [("usage", .object usage)]
    let long := record [("cost", .string "999999999999999999999999999999")]
    let short := record [("cost", .number (.int ⟨1, by decide, by decide⟩))]
    let records := [long, record [], record [("cost", .null)], short]
    let env : Env := { context := .object [("records", .array records)], options := {}, clock := ⟨0, 0, 0⟩ }
    let keys := ["usage", "cost"]
    DottedKeys keys ∧ env.resolve ⟨"records", []⟩ = some (.array records) ∧
      (sumOverField ⟨"records", []⟩ keys).eval env = .int 1000000000000000000000000000000 ∧
      (sumOverMembers ⟨"records", []⟩ keys 4).eval env = .int 1000000000000000000000000000000 := by
  intro record long short records env keys
  have hkeys : DottedKeys keys := ⟨by decide, by decide⟩
  have hrecords : env.resolve ⟨"records", []⟩ = some (.array records) := rfl
  have hlong : (Json.string "999999999999999999999999999999").Writes 999999999999999999999999999999 :=
    toInt?_eq_some.1 (by decide +kernel)
  obtain ⟨⟨hexact, -⟩, hmembers, -⟩ := sums_exact hkeys hrecords
  have hsum := hexact [999999999999999999999999999999, 1] (.cons hlong (.cons (.number _) .nil))
  exact ⟨hkeys, hrecords, hsum, (hmembers (by decide)).symm.trans hsum⟩

end Expr

end Proviso
