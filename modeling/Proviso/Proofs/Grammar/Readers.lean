/-
The readers of each level of nesting, counted from the top as the grammar counts them.

`readers d` are the readers of what stands `d` levels deep. Their equations (`readers_nested`, `readers_unary`,
`readers_deeper`) tell what they are made of, one level at a time, and hide how the levels below are counted. The
operators that a comparison may use are those that the grammar names (`equality?_eq_some`, `relation?_eq_some`), and an
identifier is free to name a field unless it is the word of a literal (`word?_eq_none`).
-/
import Proviso.Proofs.Grammar

namespace Proviso

/-- the identifiers that are literals, so no field of the record -/
def Reading.literalWords : List String := ["true", "false", "null", "undefined"]

theorem Reading.word?_eq_none {name : String} : word? name = none ↔ name ∉ literalWords := by
  simp only [word?, literalWords, List.mem_cons, List.not_mem_nil, or_false, not_or]
  constructor
  · intro h
    repeat' split at h
    all_goals simp_all
  · rintro ⟨htrue, hfalse, hnull, hundefined⟩
    simp only [htrue, hfalse, hnull, hundefined, if_false]

namespace Grammar

open Reading

/-- the readers of what stands `d` levels deep -/
def readers (d : Nat) : Level := level (depthLimit - d)

theorem readers_zero : (readers 0).nested = Reading.expression := rfl

theorem readers_of_lt {d : Nat} (h : d < depthLimit) : readers d = level (depthLimit - (d + 1) + 1) := by
  rw [readers, show depthLimit - d = depthLimit - (d + 1) + 1 by omega]

theorem readers_of_le {d : Nat} (h : depthLimit ≤ d) : readers d = level 0 := by
  rw [readers, show depthLimit - d = 0 by omega]

theorem readers_nested_of_le {d : Nat} (h : depthLimit ≤ d) : (readers d).nested = tooDeep := by
  rw [readers_of_le h]
  rfl

theorem readers_deeper {d : Nat} (h : d < depthLimit) :
    (readers d).deeper = (readers (d + 1)).unary :: (readers (d + 1)).deeper := by
  rw [readers_of_lt h]
  rfl

theorem readers_deeper_of_le {d : Nat} (h : depthLimit ≤ d) : (readers d).deeper = [] := by
  rw [readers_of_le h]
  rfl

/-- the reader of what follows `!` at level `d` -/
def deeperUnary (d : Nat) : Reader Expr := if d < depthLimit then (readers (d + 1)).unary else tooDeep

theorem readers_unary (d : Nat) :
    (readers d).unary = Reading.unary (depthLimit - d) (deeperUnary d) (readers d).nested := by
  unfold deeperUnary
  split
  · next h =>
    rw [readers_of_lt h, show depthLimit - d = depthLimit - (d + 1) + 1 by omega]
    rfl
  · next h =>
    rw [readers_of_le (by omega), show depthLimit - d = 0 by omega]
    rfl

/-- the reader of chains of relations at level `d` -/
def relation (d : Nat) : Reader Expr := comparison relation? (readers d).unary (readers d).deeper

/-- the reader of chains of equalities at level `d` -/
def equality (d : Nat) : Reader Expr := comparison equality? (relation d) (relations (readers d).deeper)

theorem relations_deeper {d : Nat} (h : d < depthLimit) :
    relations (readers d).deeper = relation (d + 1) :: relations (readers (d + 1)).deeper := by
  rw [readers_deeper h]
  rfl

theorem relations_deeper_of_le {d : Nat} (h : depthLimit ≤ d) : relations (readers d).deeper = [] := by
  rw [readers_deeper_of_le h]
  rfl

/-- the reader of `&&` chains at level `d` -/
def conjunctions (d : Nat) : Reader Expr := chain .and Reading.conjunction (equality d)

/-- the reader of `||` chains at level `d` -/
def disjunctions (d : Nat) : Reader Expr := chain .or Reading.disjunction (conjunctions d)

/-- the reader of implications at level `d` -/
def implications (d : Nat) : Reader Expr := implication (readers d).unary (readers d).deeper (readers d).nested

theorem readers_nested {d : Nat} (h : d < depthLimit) : (readers d).nested = implications (d + 1) := by
  rw [readers_of_lt h]
  rfl

theorem implications_run (d : Nat) (ls : List Lexeme) : (implications d).run ls =
    match (disjunctions d).run ls with
    | .error e => .error e
    | .ok (left, []) => .ok (left, [])
    | .ok (left, l :: rest) =>
      if l = arrow then
        match (readers d).nested.run rest with
        | .error e => .error e
        | .ok (right, rest) => .ok (.binary .implies left right, rest)
      else .ok (left, l :: rest) := rfl

/-! ## Operators as the grammar writes them -/

theorem equality?_eq_some {l : Lexeme} {op : BinaryOp} :
    equality? l = some op ↔ l = operator op ∧ (op = .eq ∨ op = .ne) := by
  unfold equality?
  constructor
  · intro h
    split at h
    · cases h; simp_all [operator, BinaryOp.symbol]
    · split at h
      · cases h; simp_all [operator, BinaryOp.symbol]
      · cases h
  · rintro ⟨rfl, rfl | rfl⟩ <;> simp [operator, BinaryOp.symbol]

theorem relation?_eq_some {l : Lexeme} {op : BinaryOp} :
    relation? l = some op ↔ l = operator op ∧ (op = .lt ∨ op = .le ∨ op = .gt ∨ op = .ge) := by
  unfold relation?
  constructor
  · intro h
    repeat' split at h
    all_goals cases h
    all_goals simp_all [operator, BinaryOp.symbol]
  · rintro ⟨rfl, rfl | rfl | rfl | rfl⟩ <;> simp [operator, BinaryOp.symbol]

end Grammar

end Proviso
