/-
Chains: operands that one operator joins, however the tree groups them.

`Folds op e ts ds` says that the tree `e` joins the operands `ts`, from left to right, and that `ds` tells how deep each of
them stands; the tree and its operands settle the depths (`Folds.depths_unique`). A round of pairing keeps the operands
and puts them one node deeper at most (`FoldsAll.pairUp`), and there are as many rounds as the logarithm of the length,
rounded up (`folds_balanced`).
-/
import Mathlib.Data.Nat.Log
import Proviso.Proofs.Expr.Nodes

namespace Proviso

namespace Expr

/-- `Folds op e ts ds`: the tree `e` joins the operands `ts`, from left to right, by nodes of the operator `op`, and `ds`
tells for each operand how many of these nodes it stands under. An operand may be such a node itself. -/
inductive Folds (op : BinaryOp) : Expr → List Expr → List Nat → Prop where
  | operand (e : Expr) : Folds op e [e] [0]
  | join {a b ts us ds fs} (left : Folds op a ts ds) (right : Folds op b us fs) :
    Folds op (.binary op a b) (ts ++ us) ((ds ++ fs).map (· + 1))

/-- the trees of a list, one after the other, join these operands -/
inductive FoldsAll (op : BinaryOp) : List Expr → List Expr → List Nat → Prop where
  | none : FoldsAll op [] [] []
  | more {e es ts us ds fs} (first : Folds op e ts ds) (others : FoldsAll op es us fs) :
    FoldsAll op (e :: es) (ts ++ us) (ds ++ fs)

variable {op : BinaryOp} {a b e e' : Expr} {es ts us ts' us' : List Expr} {ds fs : List Nat}

/-! ## Operands and their depths -/

theorem Folds.one_le_length (h : Folds op e ts ds) : 1 ≤ ts.length := by
  induction h with
  | operand => exact Nat.le_refl 1
  | join _ _ ihl _ =>
    rw [List.length_append]
    omega

/-- a tree over one operand is that operand, and a tree over more is a node of the operator -/
theorem Folds.shape (h : Folds op e ts ds) :
    ts = [e] ∧ ds = [0] ∨ 2 ≤ ts.length ∧ ∃ a b, e = .binary op a b := by
  cases h with
  | operand => exact .inl ⟨rfl, rfl⟩
  | join left right =>
    have hleft := left.one_le_length
    have hright := right.one_le_length
    rw [List.length_append]
    exact .inr ⟨by omega, _, _, rfl⟩

/-- there is one node of the operator less than there are operands -/
theorem Folds.length_nodes (h : Folds op e ts ds) : e.nodes.length + 1 = (nodesOf ts).length + ts.length := by
  induction h with
  | operand e => simp [nodesOf]
  | join _ _ ihl ihr =>
    rw [nodes, List.length_cons, List.length_append, length_nodesOf_append, List.length_append]
    omega

/-- a tree takes as many operands off the front of a list as it has nodes for -/
theorem Folds.operands_unique (h : Folds op a ts ds) (h' : Folds op a ts' fs) (heq : ts ++ us = ts' ++ us') :
    ts = ts' ∧ us = us' := by
  have hsize := h.length_nodes
  have hsize' := h'.length_nodes
  rcases List.append_eq_append_iff.1 heq with ⟨mid, hts, hus⟩ | ⟨mid, hts, hus⟩
  · rw [hts, length_nodesOf_append, List.length_append] at hsize'
    obtain rfl : mid = [] := List.eq_nil_of_length_eq_zero (by omega)
    exact ⟨by simpa using hts.symm, by simpa using hus⟩
  · rw [hts, length_nodesOf_append, List.length_append] at hsize
    obtain rfl : mid = [] := List.eq_nil_of_length_eq_zero (by omega)
    exact ⟨by simpa using hts, by simpa using hus.symm⟩

/-- **A tree and its operands settle how deep these stand.** -/
theorem Folds.depths_unique (h : Folds op e ts ds) (h' : Folds op e ts fs) : fs = ds := by
  induction h generalizing fs with
  | operand e =>
    rcases h'.shape with ⟨-, hfs⟩ | ⟨htwo, -⟩
    · exact hfs
    · simp at htwo
  | @join _ _ ts us _ _ left right ihl ihr =>
    have hleft := left.one_le_length
    have hright := right.one_le_length
    generalize hall : ts ++ us = all at h'
    cases h' with
    | operand =>
      have hone := congrArg List.length hall
      rw [List.length_append, List.length_singleton] at hone
      omega
    | join left' right' =>
      obtain ⟨rfl, rfl⟩ := left.operands_unique left' hall
      rw [ihl left', ihr right']

theorem Folds.depths_ne_nil (h : Folds op e ts ds) : ds ≠ [] := by
  induction h with
  | operand => exact List.cons_ne_nil 0 []
  | join _ _ ihl _ => simp [ihl]

/-! ## Rounds of pairing -/

theorem foldsAll_operands (op : BinaryOp) (es : List Expr) : FoldsAll op es es (List.replicate es.length 0) := by
  induction es with
  | nil => exact .none
  | cons e es ih => exact .more (.operand e) ih

/-- **A round of pairing keeps the operands.** None of them comes to stand more than one node deeper, and the first does
come to stand one node deeper when there is a pair at all. -/
theorem FoldsAll.pairUp (h : FoldsAll op es ts ds) :
    ∃ fs, FoldsAll op (pairUp op es) ts fs ∧ (∀ k, (∀ d ∈ ds, d ≤ k) → ∀ f ∈ fs, f ≤ k + 1) ∧
      (2 ≤ es.length → fs.head? = ds.head?.map (· + 1)) := by
  fun_induction Expr.pairUp op es generalizing ts ds with
  | case1 a b rest ih =>
    cases h with
    | @more _ _ _ _ ds _ left others =>
      cases others with
      | @more _ _ _ _ es gs right others =>
        obtain ⟨fs, hrest, hle, -⟩ := ih others
        refine ⟨(ds ++ es).map (· + 1) ++ fs, ?_, ?_, ?_⟩
        · rw [← List.append_assoc]
          exact .more (left.join right) hrest
        · intro k hk f hf
          rw [← List.append_assoc, List.forall_mem_append] at hk
          rcases List.mem_append.1 hf with hpair | hothers
          · obtain ⟨d, hd, rfl⟩ := List.mem_map.1 hpair
            exact Nat.succ_le_succ (hk.1 d hd)
          · exact hle k hk.2 f hothers
        · intro _
          obtain ⟨d, tail, rfl⟩ := List.exists_cons_of_ne_nil left.depths_ne_nil
          rfl
  | case2 es hshort =>
    refine ⟨ds, h, fun k hk f hf => Nat.le_succ_of_le (hk f hf), ?_⟩
    intro htwo
    rcases es with _ | ⟨a, _ | ⟨b, rest⟩⟩
    · simp at htwo
    · simp at htwo
    · exact absurd rfl (hshort a b rest)

/-- halving, rounded up, takes one off the logarithm -/
theorem clog_half {n : Nat} (h : 2 ≤ n) : Nat.clog 2 n = Nat.clog 2 ((n + 1) / 2) + 1 :=
  Nat.clog_of_two_le (Nat.le_refl 2) h

/-- rounds of pairing make one tree of some trees: as many rounds as the logarithm of their number, rounded up -/
theorem FoldsAll.balanced {k : Nat} (h : FoldsAll op es ts ds) (hsome : es ≠ []) (hle : ∀ d ∈ ds, d ≤ k)
    (hfirst : ds.head? = some k) :
    ∃ fs, Folds op (balanced op es) ts fs ∧ (∀ f ∈ fs, f ≤ k + Nat.clog 2 es.length) ∧
      fs.head? = some (k + Nat.clog 2 es.length) := by
  fun_induction Expr.balanced op es generalizing k ds with
  | case1 => exact absurd rfl hsome
  | case2 e =>
    cases h with
    | more first others =>
      cases others
      rw [List.append_nil] at hle hfirst ⊢
      exact ⟨_, first, hle, hfirst⟩
  | case3 a b rest ih =>
    obtain ⟨fs, hpairs, hdeeper, hhead⟩ := h.pairUp
    have htwo : 2 ≤ (a :: b :: rest).length := by simp
    have hrounds : k + Nat.clog 2 (a :: b :: rest).length =
        k + 1 + Nat.clog 2 (Expr.pairUp op (a :: b :: rest)).length := by
      rw [length_pairUp, clog_half htwo]
      omega
    rw [hrounds]
    rw [hfirst] at hhead
    exact ih hpairs (by simp [Expr.pairUp]) (hdeeper k hle) (hhead htwo)

/-- the balanced chain over some operands folds them, the first as deep as any -/
theorem folds_balanced (op : BinaryOp) {ts : List Expr} (hsome : ts ≠ []) :
    ∃ ds, Folds op (balanced op ts) ts ds ∧ (∀ d ∈ ds, d ≤ Nat.clog 2 ts.length) ∧
      ds.head? = some (Nat.clog 2 ts.length) := by
  obtain ⟨e, es, rfl⟩ := List.exists_cons_of_ne_nil hsome
  have hzero : ∀ d ∈ List.replicate (e :: es).length 0, d ≤ 0 := by
    intro d hd
    exact Nat.le_of_eq (List.eq_of_mem_replicate hd)
  have h := (foldsAll_operands op (e :: es)).balanced hsome hzero rfl
  simpa only [Nat.zero_add] using h

/-! ## Other groupings -/

/-- the operands grouped from the left -/
def nestedLeft (op : BinaryOp) (first : Expr) (others : List Expr) : Expr := others.foldl (.binary op) first

/-- the operands grouped from the right -/
def nestedRight (op : BinaryOp) : Expr → List Expr → Expr
  | e, [] => e
  | e, e' :: rest => .binary op e (nestedRight op e' rest)

theorem Folds.nestedLeft (h : Folds op e ts ds) (es : List Expr) :
    ∃ fs, Folds op (nestedLeft op e es) (ts ++ es) fs := by
  induction es generalizing e ts ds with
  | nil =>
    rw [List.append_nil]
    exact ⟨ds, h⟩
  | cons e' es ih =>
    rw [List.append_cons]
    exact ih (h.join (.operand e'))

theorem folds_nestedRight (op : BinaryOp) (e : Expr) (es : List Expr) :
    ∃ ds, Folds op (nestedRight op e es) (e :: es) ds := by
  induction es generalizing e with
  | nil => exact ⟨[0], .operand e⟩
  | cons e' es ih =>
    obtain ⟨ds, h⟩ := ih e'
    exact ⟨_, (Folds.operand e).join h⟩

end Expr

end Proviso
