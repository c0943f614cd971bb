/-
What conserved budgets say about nodes further down.

The check compares each node with its own children and no others. What no level adds, no number of levels adds: the leaves
under a node have no more than the node in all, whatever the shape of the tree and the signs of its budgets
(`leaves_within_budget`).

Of a single node this does not follow. Budgets may be negative, and a node whose sibling owes may have more than their
parent (`descendant_above_ancestor`). What holds is that a node together with the siblings that are passed on the way
down to it has no more than the ancestor (`descendant_beside_siblings_within_budget`).
-/
import Proviso.Proofs.Delegation.Budget
import Proviso.Proofs.Json.Equality

namespace Proviso

namespace Json

variable {node child below leaf : Json} {items nodes others siblings : List Json} {budget total rest : Int}
  {depth distance : Nat}

/-! ## Leaves -/

/-- the children of a node; where the field is no list there are none -/
def children (node : Json) : List Json := (node.listAt? "children").getD []

theorem HasList.children_eq (h : node.HasList "children" items) : node.children = items := by
  rw [children, listAt?_eq_some.2 h, Option.getD_some]

theorem mem_children : child ∈ node.children ↔ node.Child child := by
  constructor
  · intro hmem
    cases hlist : node.listAt? "children" with
    | none =>
      rw [children, hlist] at hmem
      exact absurd hmem List.not_mem_nil
    | some items =>
      rw [children, hlist] at hmem
      exact ⟨items, listAt?_eq_some.1 hlist, hmem⟩
  · rintro ⟨items, hitems, hmem⟩
    rwa [hitems.children_eq]

theorem Child.sizeOf_lt (h : node.Child child) : sizeOf child < sizeOf node := by
  obtain ⟨items, hitems, hmem⟩ := h
  cases hitems with
  | missing | null => exact absurd hmem List.not_mem_nil
  | array hfield =>
    cases node with
    | object fields =>
      have hchild := List.sizeOf_lt_of_mem hmem
      have hitems : sizeOf (array items) < sizeOf fields := Record.sizeOf_lt_of_get? hfield
      simp only [array.sizeOf_spec, object.sizeOf_spec] at hitems ⊢
      omega
    | null | bool | number | string | array => cases hfield

/-- induction over a tree: from the children of a node to the node -/
@[elab_as_elim]
theorem tree_induction {motive : Json → Prop}
    (node : ∀ node, (∀ child, node.Child child → motive child) → motive node) (tree : Json) : motive tree :=
  node tree fun child hchild =>
    have := hchild.sizeOf_lt
    tree_induction node child
termination_by sizeOf tree

/-- the leaves of the tree under a node, from left to right: itself, when it has no children -/
def leaves (node : Json) : List Json :=
  if node.children.isEmpty then [node] else node.children.attach.flatMap fun child => child.1.leaves
termination_by sizeOf node
decreasing_by exact (mem_children.1 child.2).sizeOf_lt

theorem leaves_of_childless (h : node.children = []) : node.leaves = [node] := by
  rw [leaves, h, List.isEmpty_nil, if_pos rfl]

theorem leaves_of_parent (h : node.children ≠ []) : node.leaves = node.children.flatMap leaves := by
  have hne : ¬ node.children.isEmpty = true := by rwa [List.isEmpty_iff]
  rw [leaves, if_neg hne, List.flatMap_subtype fun _ _ => rfl, List.unattach_attach]

/-- the leaves under a node are the nodes without children that it comes down to -/
theorem mem_leaves : leaf ∈ node.leaves ↔ (∃ distance, node.Descends distance leaf) ∧ ∀ child, ¬ leaf.Child child := by
  induction node using tree_induction with
  | node node ih =>
    by_cases hchildren : node.children = []
    · have hchildless : ∀ child, ¬ node.Child child := by
        intro child hchild
        rw [← mem_children, hchildren] at hchild
        exact absurd hchild List.not_mem_nil
      rw [leaves_of_childless hchildren, List.mem_singleton]
      constructor
      · rintro rfl
        exact ⟨⟨0, .here leaf⟩, hchildless⟩
      · rintro ⟨⟨distance, hleaf⟩, -⟩
        cases hleaf with
        | here => rfl
        | down hchild => exact absurd hchild (hchildless _)
    · rw [leaves_of_parent hchildren, List.mem_flatMap]
      constructor
      · rintro ⟨child, hmem, hleaf⟩
        have hchild := mem_children.1 hmem
        obtain ⟨⟨distance, hbelow⟩, hchildless⟩ := (ih child hchild).1 hleaf
        exact ⟨⟨distance + 1, .down hchild hbelow⟩, hchildless⟩
      · rintro ⟨⟨distance, hleaf⟩, hchildless⟩
        cases hleaf with
        | here =>
          obtain ⟨child, hmem⟩ := List.exists_mem_of_ne_nil _ hchildren
          exact absurd (mem_children.1 hmem) (hchildless child)
        | down hchild hbelow => exact ⟨_, mem_children.2 hchild, (ih _ hchild).2 ⟨⟨_, hbelow⟩, hchildless⟩⟩

/-! ## Budgets of several nodes -/

theorem Allotted.append (h : Allotted nodes total) (h' : Allotted others rest) :
    Allotted (nodes ++ others) (total + rest) := by
  induction h with
  | nil =>
    rw [Int.zero_add]
    exact h'
  | cons hnode _ ih =>
    rw [Int.add_assoc]
    exact .cons hnode ih

theorem Allotted.perm (h : nodes.Perm others) (hnodes : Allotted nodes total) : Allotted others total := by
  induction h generalizing total with
  | nil => exact hnodes
  | cons node _ ih =>
    cases hnodes with
    | cons hnode hrest => exact .cons hnode (ih hrest)
  | swap first second rest =>
    cases hnodes with
    | cons hsecond hrest =>
      cases hrest with
      | cons hfirst hrest =>
        rw [Int.add_left_comm]
        exact .cons hfirst (.cons hsecond hrest)
  | trans _ _ ih ih' => exact ih' (ih hnodes)

/-- one of several nodes, and the others -/
theorem Allotted.apart {before after : List Json} (h : Allotted (before ++ child :: after) total) :
    ∃ budget rest, child.HasBudget budget ∧ Allotted (before ++ after) rest ∧ budget + rest = total := by
  cases h.perm List.perm_middle with
  | cons hchild hrest => exact ⟨_, _, hchild, hrest, rfl⟩

/-- the leaves under several nodes have no more than these, if that holds of each of them -/
theorem Allotted.leaves_le (h : Allotted nodes total)
    (hleaves : ∀ node ∈ nodes, ∀ own, node.HasBudget own → ∃ shared, Allotted node.leaves shared ∧ shared ≤ own) :
    ∃ shared, Allotted (nodes.flatMap leaves) shared ∧ shared ≤ total := by
  induction h with
  | nil => exact ⟨0, .nil, Int.le_refl 0⟩
  | @cons node nodes budget total hnode _ ih =>
    obtain ⟨first, hfirst, hle⟩ := hleaves node List.mem_cons_self budget hnode
    obtain ⟨others, hothers, hle'⟩ := ih fun node hmem => hleaves node (List.mem_cons_of_mem _ hmem)
    rw [List.flatMap_cons]
    exact ⟨first + others, hfirst.append hothers, Int.add_le_add hle hle'⟩

theorem Allotted.nonneg (h : Allotted nodes total) (hall : ∀ node ∈ nodes, ∀ own, node.HasBudget own → 0 ≤ own) :
    0 ≤ total := by
  induction h with
  | nil => exact Int.le_refl 0
  | @cons node nodes budget total hnode _ ih =>
    have hfirst := hall node List.mem_cons_self budget hnode
    have hrest := ih fun node hmem => hall node (List.mem_cons_of_mem _ hmem)
    omega

/-! ## From a node to the leaves under it -/

/-- where every node keeps its budget, the leaves under a node have no more than the node -/
theorem leaves_le_of_keepsBudget {own : Int} (hkeeps : ∀ depth below, node.Descends depth below → below.KeepsBudget)
    (hown : node.HasBudget own) : ∃ total, Allotted node.leaves total ∧ total ≤ own := by
  induction node using tree_induction generalizing own with
  | node node ih =>
    obtain ⟨-, items, hitems, hallotted⟩ := hkeeps 0 node (.here node)
    by_cases hne : items = []
    · rw [leaves_of_childless (hitems.children_eq.trans hne)]
      exact ⟨own + 0, .cons hown .nil, Int.le_of_eq (Int.add_zero own)⟩
    · obtain ⟨own', total, hown', htotal, hle⟩ := hallotted hne
      obtain rfl := hown.unique hown'
      have hchildren : ∀ child ∈ items, ∀ budget, child.HasBudget budget →
          ∃ shared, Allotted child.leaves shared ∧ shared ≤ budget := by
        intro child hmem budget hbudget
        have hchild := hitems.child_iff.2 hmem
        exact ih child hchild (fun depth below hbelow => hkeeps (depth + 1) below (.down hchild hbelow)) hbudget
      obtain ⟨shared, hshared, hle'⟩ := htotal.leaves_le hchildren
      rw [leaves_of_parent (by rwa [hitems.children_eq]), hitems.children_eq]
      exact ⟨shared, hshared, Int.le_trans hle' hle⟩

/-! ## From an ancestor to a node -/

/-- The way down from an ancestor to a node, and the siblings that stand beside it: those of the node and of all nodes in
between. -/
inductive DescendsBeside : Json → List Json → Json → Prop
  | child {node child : Json} {before after : List Json} (h : node.HasList "children" (before ++ child :: after)) :
      DescendsBeside node (before ++ after) child
  | down {node child below : Json} {before after siblings : List Json}
      (h : node.HasList "children" (before ++ child :: after)) (hbelow : DescendsBeside child siblings below) :
      DescendsBeside node (before ++ after ++ siblings) below

/-- every node under an ancestor has a way down to it, with siblings beside it or not -/
theorem Descends.beside (h : node.Descends (distance + 1) below) : ∃ siblings, node.DescendsBeside siblings below := by
  induction distance generalizing node with
  | zero =>
    cases h with
    | down hchild hbelow =>
      cases hbelow
      obtain ⟨items, hitems, hmem⟩ := hchild
      obtain ⟨before, after, rfl⟩ := List.append_of_mem hmem
      exact ⟨before ++ after, .child hitems⟩
  | succ distance ih =>
    cases h with
    | down hchild hbelow =>
      obtain ⟨siblings, hsiblings⟩ := ih hbelow
      obtain ⟨items, hitems, hmem⟩ := hchild
      obtain ⟨before, after, rfl⟩ := List.append_of_mem hmem
      exact ⟨before ++ after ++ siblings, .down hitems hsiblings⟩

theorem DescendsBeside.exists_child (h : node.DescendsBeside siblings below) : ∃ child, node.Child child := by
  cases h with
  | child hitems | down hitems => exact ⟨_, hitems.child_iff.2 (List.mem_append_right _ List.mem_cons_self)⟩

/-- a child and its siblings have no more than their parent -/
theorem KeepsBudget.beside {before after : List Json} (hkeeps : node.KeepsBudget)
    (h : node.HasList "children" (before ++ child :: after)) :
    ∃ own budget rest, node.HasBudget own ∧ child.HasBudget budget ∧ Allotted (before ++ after) rest ∧
      budget + rest ≤ own := by
  obtain ⟨items, hitems, hallotted⟩ := hkeeps.allotted
  obtain rfl := h.unique hitems
  obtain ⟨own, total, hown, htotal, hle⟩ := hallotted (by simp)
  obtain ⟨budget, rest, hbudget, hrest, rfl⟩ := htotal.apart
  exact ⟨own, budget, rest, hown, hbudget, hrest, hle⟩

/-- where every node keeps its budget, a node and the siblings beside the way down to it have no more than the ancestor -/
theorem DescendsBeside.budget_le (h : node.DescendsBeside siblings below)
    (hkeeps : ∀ depth below, node.Descends depth below → below.KeepsBudget) :
    ∃ own budget rest, node.HasBudget own ∧ below.HasBudget budget ∧ Allotted siblings rest ∧ budget + rest ≤ own := by
  induction h with
  | child hitems => exact (hkeeps 0 _ (.here _)).beside hitems
  | @down node child below before after siblings hitems _ ih =>
    have hchild : node.Child child := hitems.child_iff.2 (List.mem_append_right _ List.mem_cons_self)
    obtain ⟨own, between, rest, hown, hbetween, hrest, hle⟩ := (hkeeps 0 node (.here node)).beside hitems
    obtain ⟨between', budget, rest', hbetween', hbudget, hrest', hle'⟩ :=
      ih fun depth below hbelow => hkeeps (depth + 1) below (.down hchild hbelow)
    obtain rfl := hbetween.unique hbetween'
    refine ⟨own, budget, rest + rest', hown, hbudget, hrest.append hrest', ?_⟩
    calc budget + (rest + rest')
      _ = budget + rest' + rest := by omega
      _ ≤ between + rest := Int.add_le_add_right hle' rest
      _ ≤ own := hle

end Json

/-! ## Accepted trees -/

namespace Verdict

open Json

variable {tree node child : Json} {depth : Nat}

/-- from a parent in an accepted tree down, every node keeps its budget -/
theorem keepsBudget_of_accepted (haccepted : treeBudgetConserved (.json tree) = .bool true)
    (hnode : tree.Descends depth node) (hchild : node.Child child) (distance : Nat) (below : Json)
    (hbelow : node.Descends distance below) : below.KeepsBudget := by
  rcases onTree_eq_true.1 haccepted with habsent | hnull | ⟨root, hroot, hconserved⟩
  · cases habsent
  · -- a tree that is null has no children anywhere
    obtain rfl := Operand.json.inj hnull
    cases hnode with
    | here => exact absurd hchild not_child_null
    | down hchild => exact absurd hchild not_child_null
  · obtain rfl := Operand.json.inj hroot
    exact (budgetConserved_iff.1 hconserved _ below (hnode.trans hbelow)).2

/-- **No level of a tree adds to its budget.** In an accepted tree the leaves under a parent, the nodes without children
at any distance below it, all have budgets, and in all no more than the parent. -/
theorem leaves_within_budget (haccepted : treeBudgetConserved (.json tree) = .bool true)
    (hnode : tree.Descends depth node) (hchild : node.Child child) :
    (∀ leaf, leaf ∈ node.leaves ↔
      (∃ distance, node.Descends (distance + 1) leaf) ∧ ∀ child, ¬ leaf.Child child) ∧
    ∃ own total, node.HasBudget own ∧ Allotted node.leaves total ∧ total ≤ own := by
  have hkeeps := keepsBudget_of_accepted haccepted hnode hchild
  constructor
  · intro leaf
    rw [mem_leaves]
    refine and_congr_left fun hchildless => ⟨?_, fun ⟨distance, hleaf⟩ => ⟨distance + 1, hleaf⟩⟩
    rintro ⟨distance, hleaf⟩
    cases hleaf with
    | here => exact absurd hchild (hchildless child)
    | down hfirst hbelow => exact ⟨_, .down hfirst hbelow⟩
  · obtain ⟨items, hitems, hmem⟩ := hchild
    obtain ⟨before, after, rfl⟩ := List.append_of_mem hmem
    obtain ⟨own, -, -, hown, -⟩ := (hkeeps 0 node (.here node)).beside hitems
    obtain ⟨total, htotal, hle⟩ := leaves_le_of_keepsBudget hkeeps hown
    exact ⟨own, total, hown, htotal, hle⟩

/-- a node with a budget and children -/
def allotting (budget : String) (children : List Json) : Json :=
  .object [("budget_allocated_micro", .string budget), ("children", .array children)]

/-- a child with much more than its parent, to hand on -/
def lavish : Json := allotting "100" [allotting "60" [], allotting "30" []]

/-- a node of which one child owes what the other has too much -/
def indebted : Json := allotting "10" [lavish, allotting "-95" []]

theorem child_indebted_lavish : indebted.Child lavish :=
  ⟨[lavish, allotting "-95" []], .array rfl, List.mem_cons_self⟩

/-- the leaves under the indebted node have 60, 30 and -95, no more than its 10 -/
theorem leaves_of_indebted :
    treeBudgetConserved (.json indebted) = .bool true ∧ indebted.Child lavish ∧
      ∃ own total, indebted.HasBudget own ∧ Allotted indebted.leaves total ∧ total ≤ own := by
  have haccepted : treeBudgetConserved (.json indebted) = .bool true := rfl
  exact ⟨haccepted, child_indebted_lavish, (leaves_within_budget haccepted (.here indebted) child_indebted_lavish).2⟩

/-- **A node has no more than its ancestors, as far as its siblings allow.** In an accepted tree, take any way down from an
ancestor: what the node at its end has, and what the siblings beside the way have, is in all no more than what the ancestor
has. So where none of these siblings owes anything, the node has no more than the ancestor. -/
theorem descendant_beside_siblings_within_budget {ancestor : Json}
    (haccepted : treeBudgetConserved (.json tree) = .bool true) (hancestor : tree.Descends depth ancestor) :
    (∀ distance node, ancestor.Descends (distance + 1) node → ∃ siblings, ancestor.DescendsBeside siblings node) ∧
    ∀ siblings node, ancestor.DescendsBeside siblings node →
      ∃ own budget rest, ancestor.HasBudget own ∧ node.HasBudget budget ∧ Allotted siblings rest ∧ budget + rest ≤ own ∧
        ((∀ sibling ∈ siblings, ∀ n, sibling.HasBudget n → 0 ≤ n) → budget ≤ own) := by
  refine ⟨fun distance node hnode => hnode.beside, fun siblings node hnode => ?_⟩
  obtain ⟨first, hfirst⟩ := hnode.exists_child
  obtain ⟨own, budget, rest, hown, hbudget, hrest, hle⟩ :=
    hnode.budget_le (keepsBudget_of_accepted haccepted hancestor hfirst)
  refine ⟨own, budget, rest, hown, hbudget, hrest, hle, fun hnonneg => ?_⟩
  have hrest_nonneg : 0 ≤ rest := hrest.nonneg hnonneg
  omega

/-- the lavish child and its sibling, which owes 95, have no more than the 10 of their parent -/
theorem lavish_beside_debtor :
    treeBudgetConserved (.json indebted) = .bool true ∧ indebted.DescendsBeside [allotting "-95" []] lavish ∧
      ∃ own budget rest, indebted.HasBudget own ∧ lavish.HasBudget budget ∧
        Allotted [allotting "-95" []] rest ∧ budget + rest ≤ own := by
  have haccepted : treeBudgetConserved (.json indebted) = .bool true := rfl
  have hlavish : indebted.DescendsBeside [allotting "-95" []] lavish :=
    @DescendsBeside.child indebted lavish [] [allotting "-95" []] (.array rfl)
  obtain ⟨own, budget, rest, hown, hbudget, hrest, hle, -⟩ :=
    (descendant_beside_siblings_within_budget haccepted (.here indebted)).2 _ lavish hlavish
  exact ⟨haccepted, hlavish, own, budget, rest, hown, hbudget, hrest, hle⟩

/-- **A child may have more than its parent.** The indebted node is accepted with a budget of 10, and one of its children
has 100. -/
theorem descendant_above_ancestor :
    treeBudgetConserved (.json indebted) = .bool true ∧ indebted.Descends 1 lavish ∧
      indebted.HasBudget 10 ∧ lavish.HasBudget 100 ∧ ¬ (100 : Int) ≤ 10 :=
  ⟨rfl, .down child_indebted_lavish (.here lavish), ⟨_, rfl, .text 10⟩, ⟨_, rfl, .text 100⟩, by decide⟩

end Verdict

end Proviso
