/-
How high an expression stands: the number of nodes on the longest way down to a leaf, without the leaf.

A balanced chain puts its operands no deeper than the logarithm of their number, so `2 ^ l` of them fold into a tree that
is `l` higher than the highest of them (`height_balanced_le`).
-/
import Proviso.Proofs.Expr.Chain

namespace Proviso

namespace Expr

mutual

/-- the height of a tree: zero for a literal or a field, and one more than the highest subtree of any other node -/
def height : Expr → Nat
  | .literal _ => 0
  | .field _ => 0
  | .call _ args => heightOver args
  | .array items => heightOver items
  | .not e => e.height + 1
  | .binary _ left right => Nat.max left.height right.height + 1
  | .length e => e.height + 1
  | .every _ _ body => body.height + 1

/-- the height of a node over these subtrees: zero when there are none -/
def heightOver : List Expr → Nat
  | [] => 0
  | e :: rest => Nat.max (e.height + 1) (heightOver rest)

end

theorem heightOver_le_iff {es : List Expr} {h : Nat} : heightOver es ≤ h ↔ ∀ e ∈ es, e.height < h := by
  induction es with
  | nil => simp [heightOver]
  | cons e es ih =>
    rw [heightOver, List.forall_mem_cons, ← ih]
    exact Nat.max_le

theorem height_binary_le {op : BinaryOp} {a b : Expr} {h : Nat} (ha : a.height < h) (hb : b.height < h) :
    (Expr.binary op a b).height ≤ h := by
  rw [height]
  exact Nat.max_lt.2 ⟨ha, hb⟩

/-- a tree over operands is as high as the highest of them and the deepest together -/
theorem Folds.height_le {op : BinaryOp} {e : Expr} {ts : List Expr} {ds : List Nat} (hfolds : Folds op e ts ds)
    {h l : Nat} (hts : ∀ t ∈ ts, t.height ≤ h) (hds : ∀ d ∈ ds, d ≤ l) : e.height ≤ h + l := by
  induction hfolds generalizing l with
  | operand e =>
    have he := hts e List.mem_cons_self
    omega
  | @join a b ts us ds fs left right ihl ihr =>
    rw [List.forall_mem_append] at hts
    rw [List.forall_mem_map, List.forall_mem_append] at hds
    obtain ⟨d, rest, hfirst⟩ := List.exists_cons_of_ne_nil left.depths_ne_nil
    have hl : d + 1 ≤ l := hds.1 d (by rw [hfirst]; exact List.mem_cons_self)
    have ha := ihl hts.1 fun d hd => Nat.le_sub_one_of_lt (hds.1 d hd)
    have hb := ihr hts.2 fun d hd => Nat.le_sub_one_of_lt (hds.2 d hd)
    exact height_binary_le (by omega) (by omega)

/-- **A chain folds into a tree of logarithmic height.** -/
theorem height_balanced_le (op : BinaryOp) {es : List Expr} {h l : Nat} (hes : ∀ e ∈ es, e.height ≤ h)
    (hlength : es.length ≤ 2 ^ l) : (balanced op es).height ≤ h + l := by
  by_cases hsome : es = []
  · subst hsome
    simp [balanced, height]
  · obtain ⟨ds, hfolds, hdeep, -⟩ := folds_balanced op hsome
    have hclog : Nat.clog 2 es.length ≤ l := Nat.clog_le_of_le_pow hlength
    exact hfolds.height_le hes fun d hd => Nat.le_trans (hdeep d hd) hclog

end Expr

end Proviso
