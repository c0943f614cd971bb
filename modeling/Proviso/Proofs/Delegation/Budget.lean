/-
What it takes for the budgets of a tree to be conserved.

A tree passes exactly when each node that can be reached from its root, at most ten levels down, keeps its budget: the
node is an object, its children are a list, and if there are any they all have budgets which add up to no more than its
own (`budgets_conserved_iff`). Leaves need no budget, and a tree that goes deeper never passes. Budgets are integers of
any size and either sign.
-/
import Proviso.Proofs.Delegation.Tree

namespace Proviso

namespace Json

/-- the node has this budget -/
def HasBudget (node : Json) (budget : Int) : Prop := node.HasInt "budget_allocated_micro" budget

/-- the nodes all have budgets, and these add up to the total -/
inductive Allotted : List Json → Int → Prop
  | nil : Allotted [] 0
  | cons {node : Json} {nodes : List Json} {budget total : Int} (hnode : node.HasBudget budget)
      (hnodes : Allotted nodes total) : Allotted (node :: nodes) (budget + total)

/-- What is asked of each node by itself: it is an object, its children are a list, and if there are any they are
allotted no more than the node has. -/
structure KeepsBudget (node : Json) : Prop where
  object : node.IsObject
  allotted : ∃ children, node.HasList "children" children ∧
    (children ≠ [] → ∃ own total, node.HasBudget own ∧ Allotted children total ∧ total ≤ own)

-- a sum starts at the zero of the core library, whatever else is in scope
attribute [local instance (2000)] Zero.ofOfNat0

theorem allotted_iff {nodes : List Json} {total : Int} :
    Allotted nodes total ↔
      ∃ budgets, nodes.mapM (·.intAt? "budget_allocated_micro") = some budgets ∧ budgets.sum = total := by
  constructor
  · intro h
    induction h with
    | nil => exact ⟨[], rfl, rfl⟩
    | cons hnode _ ih =>
      obtain ⟨budgets, hbudgets, rfl⟩ := ih
      exact ⟨_ :: budgets, mapM_cons_eq_some.2 ⟨_, budgets, intAt?_eq_some.2 hnode, hbudgets, rfl⟩, List.sum_cons⟩
  · rintro ⟨budgets, hbudgets, rfl⟩
    induction nodes generalizing budgets with
    | nil =>
      obtain rfl : [] = budgets := Option.some.inj hbudgets
      exact .nil
    | cons node nodes ih =>
      obtain ⟨budget, rest, hnode, hrest, rfl⟩ := mapM_cons_eq_some.1 hbudgets
      rw [List.sum_cons]
      exact .cons (intAt?_eq_some.1 hnode) (ih rest hrest)

end Json

namespace Verdict

open Json

variable {node : Json} {children : List Json} {levels : Nat}

/-! ## One level of the check -/

theorem budgetConserved_malformed (h : ¬ ∃ children, node.HasList "children" children) :
    budgetConserved (levels + 1) node = false := by
  rw [budgetConserved, listAt?_eq_none.2 h, Bool.and_false]

theorem budgetConserved_leaf (h : node.HasList "children" []) :
    budgetConserved (levels + 1) node = true ↔ node.IsObject := by
  rw [budgetConserved, listAt?_eq_some.2 h, Bool.and_true, isSome_object?]

theorem budgetConserved_parent (h : node.HasList "children" children) (hne : children ≠ []) :
    budgetConserved (levels + 1) node = true ↔
      node.IsObject ∧ (∃ own total, node.HasBudget own ∧ Allotted children total ∧ total ≤ own) ∧
        ∀ child ∈ children, budgetConserved levels child = true := by
  obtain ⟨first, rest, rfl⟩ := List.exists_cons_of_ne_nil hne
  rw [budgetConserved, listAt?_eq_some.2 h, Bool.and_eq_true, isSome_object?]
  refine and_congr_right fun _ => ?_
  dsimp only
  constructor
  · intro hcheck
    split at hcheck
    · next own budgets hown hbudgets =>
      rw [Bool.and_eq_true, decide_eq_true_iff, List.all_eq_true] at hcheck
      obtain ⟨hle, hall⟩ := hcheck
      exact ⟨⟨own, budgets.sum, intAt?_eq_some.1 hown, allotted_iff.2 ⟨budgets, hbudgets, rfl⟩, hle⟩, hall⟩
    · cases hcheck
  · rintro ⟨⟨own, total, hown, htotal, hle⟩, hall⟩
    obtain ⟨budgets, hbudgets, rfl⟩ := allotted_iff.1 htotal
    simp only [intAt?_eq_some.2 hown, hbudgets, Bool.and_eq_true, decide_eq_true_iff, List.all_eq_true]
    exact ⟨hle, hall⟩

theorem budgetConserved_succ : budgetConserved (levels + 1) node = true ↔
    node.KeepsBudget ∧ ∀ child, node.Child child → budgetConserved levels child = true := by
  by_cases hlist : ∃ children, node.HasList "children" children
  · obtain ⟨children, hchildren⟩ := hlist
    by_cases hne : children = []
    · subst hne
      rw [budgetConserved_leaf hchildren]
      constructor
      · intro hobject
        refine ⟨⟨hobject, [], hchildren, fun hne => absurd rfl hne⟩, fun child hchild => ?_⟩
        exact absurd (hchildren.child_iff.1 hchild) List.not_mem_nil
      · rintro ⟨hkeeps, -⟩
        exact hkeeps.object
    · rw [budgetConserved_parent hchildren hne]
      constructor
      · rintro ⟨hobject, hallotted, hall⟩
        exact ⟨⟨hobject, children, hchildren, fun _ => hallotted⟩,
          fun child hchild => hall child (hchildren.child_iff.1 hchild)⟩
      · rintro ⟨⟨hobject, other, hother, hallotted⟩, hall⟩
        obtain rfl := hchildren.unique hother
        exact ⟨hobject, hallotted hne, fun child hchild => hall child (hchildren.child_iff.2 hchild)⟩
  · rw [budgetConserved_malformed hlist]
    constructor
    · intro hfalse
      cases hfalse
    · rintro ⟨⟨-, children, hchildren, -⟩, -⟩
      exact absurd ⟨children, hchildren⟩ hlist

/-! ## Whole trees -/

theorem budgetConserved_iff : budgetConserved levels node = true ↔
    ∀ depth below, node.Descends depth below → depth < levels ∧ below.KeepsBudget :=
  level_check_iff (fun _ => rfl) (fun _ _ => budgetConserved_succ) levels node

/-- **The budgets of a tree are conserved exactly when every node keeps its budget,** none of them more than ten levels
below the root. Without a root there is nothing to check. So a tree that goes deeper is refused, whatever its budgets. -/
theorem budgets_conserved_iff (root : Operand) :
    (treeBudgetConserved root = .bool true ↔
      root = .absent ∨ root = .json .null ∨
        ∃ tree, root = .json tree ∧ ∀ depth node, tree.Descends depth node → depth ≤ 10 ∧ node.KeepsBudget) ∧
    ∀ tree depth node, root = .json tree → tree.Descends depth node → 10 < depth →
      treeBudgetConserved root = .bool false := by
  constructor
  · rw [treeBudgetConserved, onTree_eq_true]
    simp only [budgetConserved_iff, maxTreeDepth, Nat.lt_succ_iff]
  · rintro tree depth node rfl hnode hdeep
    have htree : ¬ budgetConserved (maxTreeDepth + 1) tree = true := by
      rw [budgetConserved_iff]
      intro hall
      exact absurd hdeep (Nat.not_lt.2 (Nat.le_of_lt_succ (hall depth node hnode).1))
    cases hnode with
    | here => exact absurd hdeep (Nat.not_lt_zero 10)
    | down hchild _ => rw [treeBudgetConserved, onTree_of_child hchild, Bool.eq_false_iff.2 htree]

/-- a tree that goes down so many times, of nodes with one child that has their whole budget -/
def single : Nat → Json
  | 0 => .object [("budget_allocated_micro", .string "100")]
  | levels + 1 => .object [("budget_allocated_micro", .string "100"), ("children", .array [single levels])]

theorem descends_single (levels : Nat) : (single levels).Descends levels (single 0) := by
  induction levels with
  | zero => exact .here _
  | succ levels ih => exact .down ⟨[single levels], .array rfl, List.mem_singleton_self _⟩ ih

/-- ten levels below the root are allowed, and eleven are too many -/
theorem eleven_levels_refused :
    treeBudgetConserved (.json (single 10)) = .bool true ∧ treeBudgetConserved (.json (single 11)) = .bool false :=
  ⟨rfl, (budgets_conserved_iff _).2 (single 11) 11 (single 0) rfl (descends_single 11) (by decide)⟩

end Verdict

end Proviso
