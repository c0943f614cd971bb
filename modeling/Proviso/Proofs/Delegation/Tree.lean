/-
Trees of nodes, each with its children in a list.

`Descends root depth node` says that the node is reached from the root by going down that many times, from child to
child. A check that judges a node by itself and then its children, level by level, accepts just the trees of which every
node is as the judgement asks and no node is too deep (`level_check_iff`).
-/
import Proviso.Proofs.Json.Fields
import Proviso.Verdict.Delegation

namespace Proviso

namespace Json

/-- a node is among the children of another -/
def Child (node child : Json) : Prop := ∃ children, node.HasList "children" children ∧ child ∈ children

/-- the node that is reached by going down from child to child, `depth` times -/
inductive Descends : Json → Nat → Json → Prop
  | here (node : Json) : Descends node 0 node
  | down {node child below : Json} {depth : Nat} (hchild : node.Child child) (hbelow : Descends child depth below) :
      Descends node (depth + 1) below

variable {node child below root : Json} {children : List Json} {depth distance : Nat}

theorem Descends.trans (h : root.Descends depth node) (h' : node.Descends distance below) :
    root.Descends (distance + depth) below := by
  induction h with
  | here => exact h'
  | down hchild _ ih => exact .down hchild (ih h')

theorem HasList.child_iff (h : node.HasList "children" children) : node.Child child ↔ child ∈ children := by
  constructor
  · rintro ⟨other, hother, hmem⟩
    rwa [h.unique hother]
  · intro hmem
    exact ⟨children, h, hmem⟩

theorem not_child_null : ¬ null.Child child := by
  rintro ⟨children, hchildren, hmem⟩
  obtain rfl : children = [] := hchildren.unique (.missing rfl)
  exact absurd hmem List.not_mem_nil

/-- **A check by levels is a check of every node.** `check levels` judges a node by `Good` and its children by
`check (levels - 1)`, and refuses what lies deeper than the levels allow. -/
theorem level_check_iff {check : Nat → Json → Bool} {Good : Json → Prop} (hzero : ∀ node, check 0 node = false)
    (hsucc : ∀ levels node, check (levels + 1) node = true ↔
      Good node ∧ ∀ child, node.Child child → check levels child = true)
    (levels : Nat) (root : Json) :
    check levels root = true ↔ ∀ depth node, root.Descends depth node → depth < levels ∧ Good node := by
  induction levels generalizing root with
  | zero =>
    constructor
    · intro h
      rw [hzero] at h
      cases h
    · intro h
      exact absurd (h 0 root (.here root)).1 (Nat.lt_irrefl 0)
  | succ levels ih =>
    rw [hsucc]
    -- what is below the root is the root itself and what is below its children, one level less
    constructor
    · rintro ⟨hroot, hchildren⟩ depth node hnode
      cases hnode with
      | here => exact ⟨Nat.succ_pos levels, hroot⟩
      | down hchild hbelow =>
        obtain ⟨hdepth, hgood⟩ := (ih _).1 (hchildren _ hchild) _ _ hbelow
        exact ⟨Nat.succ_lt_succ hdepth, hgood⟩
    · intro h
      refine ⟨(h 0 root (.here root)).2, fun child hchild => (ih child).2 fun depth node hnode => ?_⟩
      obtain ⟨hdepth, hgood⟩ := h (depth + 1) node (.down hchild hnode)
      exact ⟨Nat.lt_of_succ_lt_succ hdepth, hgood⟩

end Json

namespace Verdict

variable {judge : Json → Bool} {root : Operand} {node child : Json}

/-- a missing or null root is fine, and any other must be a value that the judgement accepts -/
theorem onTree_eq_true : onTree judge root = .bool true ↔
    root = .absent ∨ root = .json .null ∨ ∃ node, root = .json node ∧ judge node = true := by
  cases root with
  | absent => simp [onTree, Operand.isNullish]
  | json node => cases node <;> simp [onTree, Operand.isNullish, Json.isNull, Operand.json?, Operand.bool_inj]
  | int | list => simp [onTree, Operand.isNullish, Operand.json?, Operand.bool_inj]

/-- a root with a child is a value, so the judgement decides -/
theorem onTree_of_child (h : node.Child child) : onTree judge (.json node) = .bool (judge node) := by
  cases node with
  | null => exact absurd h Json.not_child_null
  | bool | number | string | array | object => rfl

end Verdict

end Proviso
