/-
Verdicts on delegation: chains of links, each handed on by the one before, and trees of nodes with children.

A chain is judged link by link, each against its predecessor, and a tree level by level, each node against its parent.
Trees are followed `maxTreeDepth` levels below the root; a deeper tree is refused.
-/
import Proviso.Operand
import Proviso.Instant.Text
import Proviso.Text.Lowercase

namespace Proviso.Verdict

/-- whether a relation holds between each item and the next -/
def adjacent {α : Type} (r : α → α → Bool) : List α → Bool
  | a :: b :: rest => r a b && adjacent r (b :: rest)
  | _ => true

/-- The scope of a link or node, each entry folded. A missing scope is empty; anything but an array of texts is
malformed. -/
def scope? (fold : String → String) (v : Json) : Option (List String) :=
  match v.get? "authority_scope" with
  | none | some .null => some []
  | some (.array items) => items.mapM fun item => item.string?.map fold
  | some _ => none

/-- whether the second list holds nothing that is not in the first -/
def covers (outer inner : List String) : Bool := inner.all fun s => outer.contains s

/-! ## Chains of links -/

/-- whether a link's scope lies in that of its predecessor -/
def scopeNarrows (parent child : Json) : Bool :=
  match scope? id parent, scope? id child with
  | some outer, some inner => covers outer inner
  | _, _ => false

/-- the budget of a link, unless it is missing or null -/
def budget? (link : Json) : Option Json :=
  match link.get? "budget_allocated_micro" with
  | none | some .null => none
  | some v => some v

/-- whether a link's budget is at most that of its predecessor; without a budget on either side it is -/
def budgetShrinks (parent child : Json) : Bool :=
  match budget? parent, budget? child with
  | some p, some c =>
    match p.toInt?, c.toInt? with
    | some p, some c => c ≤ p
    | _, _ => false
  | _, _ => true

/-- whether a link is handed on by the one to whom its predecessor went -/
def handsOn (link next : Json) : Bool :=
  match link.get? "delegatee", next.get? "delegator" with
  | some a, some b => !a.isNull && a.same b
  | _, _ => false

/-- the instant of the timestamp in a field -/
def instantAt? (v : Json) (key : String) : Option Instant := (v.stringAt? key).bind Instant.ofText?

/-- a verdict on links, false unless they are an array -/
def onLinks (judge : List Json → Bool) (links : Operand) : Operand := .bool (links.array?.any judge)

def allLinksSubsetAuthority : Operand → Operand := onLinks (adjacent scopeNarrows)

def delegationBudgetConserved : Operand → Operand := onLinks (adjacent budgetShrinks)

def linksTemporallyOrdered : Operand → Operand :=
  onLinks fun links => (links.mapM (instantAt? · "timestamp")).any (adjacent Instant.le)

def linksFormChain : Operand → Operand := onLinks (adjacent handsOn)

/-! ## Trees -/

/-- how many levels below its root a tree may have -/
def maxTreeDepth : Nat := 10

-- a sum starts at the zero of the core library, whatever else is in scope
attribute [local instance (2000)] Zero.ofOfNat0

/-- Whether at each node the budgets of the children add up to no more than its own, for trees of at most `levels`
levels. A leaf needs no budget. -/
def budgetConserved : Nat → Json → Bool
  | 0, _ => false
  | levels + 1, node =>
    node.object?.isSome &&
    match node.listAt? "children" with
    | none => false
    | some [] => true
    | some children =>
      match node.intAt? "budget_allocated_micro", children.mapM (·.intAt? "budget_allocated_micro") with
      | some own, some budgets => budgets.sum ≤ own && children.all (budgetConserved levels)
      | _, _ => false

/-- Whether at each node the scope of every child lies in its own, without regard to case, for trees of at most `levels`
levels. -/
def authorityNarrows : Nat → Json → Bool
  | 0, _ => false
  | levels + 1, node =>
    node.object?.isSome &&
    match scope? Text.lowercase node, node.listAt? "children" with
    | some outer, some children =>
      children.all fun child =>
        (scope? Text.lowercase child).any (covers outer) && authorityNarrows levels child
    | _, _ => false

/-- a verdict on a tree: true of a missing root, false of what is no JSON value -/
def onTree (judge : Json → Bool) (root : Operand) : Operand :=
  if root.isNullish then .bool true else .bool (root.json?.any judge)

def treeBudgetConserved : Operand → Operand := onTree (budgetConserved (maxTreeDepth + 1))

def treeAuthorityNarrowing : Operand → Operand := onTree (authorityNarrows (maxTreeDepth + 1))

end Proviso.Verdict
