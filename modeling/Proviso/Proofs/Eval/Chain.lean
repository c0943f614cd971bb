/-
What a chain means.

The grouping of a chain makes no difference to what `&&` and `||` mean: the one holds when all operands do and the other
when some do (`Folds.holds_and`, `Folds.holds_or`), so all trees over the same operands evaluate alike
(`Folds.eval_eq`). A chain can therefore be balanced, which keeps it low and loses nothing (`balanced_keeps_chain`).
-/
import Proviso.Eval
import Proviso.Proofs.Expr.Chain

namespace Proviso

namespace Expr

variable {op : BinaryOp} {e e' : Expr} {ts : List Expr} {ds fs : List Nat}

theorem holds_and (env : Env) (a b : Expr) : (binary .and a b).holds env = (a.holds env && b.holds env) := rfl

theorem holds_or (env : Env) (a b : Expr) : (binary .or a b).holds env = (a.holds env || b.holds env) := rfl

theorem eval_binary (env : Env) (op : BinaryOp) (a b : Expr) :
    (binary op a b).eval env = .bool ((binary op a b).holds env) := rfl

theorem Folds.holds_and (h : Folds .and e ts ds) (env : Env) : e.holds env = ts.all (·.holds env) := by
  induction h with
  | operand e => simp
  | join _ _ ihl ihr => rw [Expr.holds_and, ihl, ihr, List.all_append]

theorem Folds.holds_or (h : Folds .or e ts ds) (env : Env) : e.holds env = ts.any (·.holds env) := by
  induction h with
  | operand e => simp
  | join _ _ ihl ihr => rw [Expr.holds_or, ihl, ihr, List.any_append]

/-- **The grouping makes no difference.** Trees that join the same operands by `&&`, or by `||`, evaluate alike. -/
theorem Folds.eval_eq (hop : op = .and ∨ op = .or) (h : Folds op e ts ds) (h' : Folds op e' ts fs) (env : Env) :
    e.eval env = e'.eval env := by
  have hholds : e.holds env = e'.holds env := by
    rcases hop with rfl | rfl
    · rw [h.holds_and, h'.holds_and]
    · rw [h.holds_or, h'.holds_or]
  rcases h.shape with ⟨hts, -⟩ | ⟨htwo, a, b, rfl⟩
  · -- one operand: it is either tree
    rcases h'.shape with ⟨hts', -⟩ | ⟨htwo', -⟩
    · obtain rfl : e = e' := by simpa using hts.symm.trans hts'
      rfl
    · simp [hts] at htwo'
  · rcases h'.shape with ⟨hts', -⟩ | ⟨-, a', b', rfl⟩
    · simp [hts'] at htwo
    · rw [eval_binary, eval_binary, hholds]

/-- **Balancing keeps a chain.** The balanced tree of a chain of `&&` or `||` joins just the operands of the chain, in
their order; none stands deeper than the logarithm of their number, rounded up, and the first stands that deep. It holds
when all operands do, or some, and evaluates as the tree grouped from the left does and the tree grouped from the right. -/
theorem balanced_keeps_chain (hop : op = .and ∨ op = .or) (first : Expr) (others : List Expr) :
    let terms := first :: others
    (∃ depths, (∀ ds, Folds op (balanced op terms) terms ds ↔ ds = depths) ∧
      (∀ d ∈ depths, d ≤ Nat.clog 2 terms.length) ∧ depths.head? = some (Nat.clog 2 terms.length)) ∧
    ∀ env,
      (op = .and → ((balanced op terms).holds env = true ↔ ∀ t ∈ terms, t.holds env = true)) ∧
      (op = .or → ((balanced op terms).holds env = true ↔ ∃ t ∈ terms, t.holds env = true)) ∧
      (balanced op terms).eval env = (nestedLeft op first others).eval env ∧
      (balanced op terms).eval env = (nestedRight op first others).eval env := by
  intro terms
  obtain ⟨depths, hfolds, hle, hfirst⟩ := folds_balanced op (List.cons_ne_nil first others)
  have hoperand : Folds op first [first] [0] := .operand first
  obtain ⟨leftDepths, hleft⟩ := hoperand.nestedLeft others
  obtain ⟨rightDepths, hright⟩ := folds_nestedRight op first others
  refine ⟨⟨depths, fun ds => ⟨hfolds.depths_unique, ?_⟩, hle, hfirst⟩, fun env => ⟨?_, ?_, ?_, ?_⟩⟩
  · rintro rfl
    exact hfolds
  · rintro rfl
    rw [hfolds.holds_and, List.all_eq_true]
  · rintro rfl
    rw [hfolds.holds_or, List.any_eq_true]
  · exact hfolds.eval_eq hop hleft env
  · exact hfolds.eval_eq hop hright env

/-- `a && b && c && d && e`: the odd operand is carried over twice, and stands one node deep where the others stand three -/
theorem chain_of_five :
    let field (name : String) := Expr.field ⟨name, []⟩
    let terms := [field "a", field "b", field "c", field "d", field "e"]
    (∀ ds, Folds .and (balanced .and terms) terms ds ↔ ds = [3, 3, 3, 3, 1]) ∧
      ∀ env, (balanced .and terms).eval env = (nestedLeft .and (field "a") terms.tail).eval env := by
  intro field terms
  obtain ⟨⟨depths, hfolds, -, -⟩, hmeans⟩ := balanced_keeps_chain (.inl rfl) (field "a") terms.tail
  have hpair : ∀ a b, Folds .and (.binary .and a b) [a, b] [1, 1] := fun a b => (Folds.operand a).join (.operand b)
  have htree : Folds .and (balanced .and terms) terms [3, 3, 3, 3, 1] := by
    simp only [terms, balanced, pairUp]
    exact ((hpair _ _).join (hpair _ _)).join (.operand _)
  obtain rfl := (hfolds _).1 htree
  exact ⟨hfolds, fun env => (hmeans env).2.2.1⟩

end Expr

end Proviso
