/-
Reading lexemes into an expression.

The readers follow the grammar, loosest first: `=>` to the right, `||`, `&&`, `==` and `!=`, the relations, `!`, and
terms.

Nesting is limited. Every expression in parentheses, in a list, in a lambda or to the right of `=>`, every `!`, every
further comparison in a chain and every `.length` goes one level deeper, and there are `depthLimit` levels. `level n`
holds the readers that have `n` levels below them, built from those of `level (n - 1)`; so the recursion of the grammar
is a recursion on the number of levels left, whatever the lexemes are.

Readers see lexemes only, so the tree and the cause of a refusal do not depend on the layout of the text. A refusal
counts the lexemes that were left, and `ofTokens?` turns that into the position of the token not yet read.
-/
import Proviso.Expr.Reading.Term

namespace Proviso

namespace Reading

/-! ## Operators -/

/-- where no level is left -/
def tooDeep : Reader Expr where
  run ls := refuse .tooDeep ls
  shortens ls a rest h := by simp [refuse] at h

/-- `!` before an operand one level deeper, or an operand with its suffixes -/
def unary (levels : Nat) (deeper nested : Reader Expr) : Reader Expr where
  run ls := match ls with
    | l :: rest =>
      if l = bang then
        match deeper.run rest with
        | .error e => .error e
        | .ok (e, rest) => .ok (.not e, rest)
      else postfixed levels nested (l :: rest)
    | [] => postfixed levels nested []
  shortens ls e out h := by
    split at h
    · split at h
      · split at h
        · simp at h
        · rename_i hd
          have := deeper.shortens _ _ _ hd
          simp_all
          omega
      · exact postfixed_shortens _ _ _ _ _ h
    · exact postfixed_shortens _ _ _ _ _ h

/-- the relation that a lexeme denotes -/
def relation? (l : Lexeme) : Option BinaryOp :=
  if l = ⟨.operator, "<"⟩ then some .lt
  else if l = ⟨.operator, "<="⟩ then some .le
  else if l = ⟨.operator, ">"⟩ then some .gt
  else if l = ⟨.operator, ">="⟩ then some .ge
  else none

/-- the equality that a lexeme denotes -/
def equality? (l : Lexeme) : Option BinaryOp :=
  if l = ⟨.operator, "=="⟩ then some .eq
  else if l = ⟨.operator, "!="⟩ then some .ne
  else none

/-- The rest of a chain of comparisons, nested to the left. The operands come from ever deeper levels; where no level is
left, a further operator is refused. -/
def comparisons (operator? : Lexeme → Option BinaryOp) :
    List (Reader Expr) → Expr → List Lexeme → Outcome Expr
  | _, left, [] => .ok (left, [])
  | operands, left, l :: rest =>
    match operator? l with
    | none => .ok (left, l :: rest)
    | some op =>
      match operands with
      | [] => refuse .tooDeep rest
      | operand :: deeper =>
        match operand.run rest with
        | .error e => .error e
        | .ok (right, rest) => comparisons operator? deeper (.binary op left right) rest

theorem comparisons_length (operator? : Lexeme → Option BinaryOp) (operands : List (Reader Expr)) :
    ∀ left ls e out, comparisons operator? operands left ls = .ok (e, out) → out.length ≤ ls.length := by
  induction operands with
  | nil =>
    intro left ls e out h
    unfold comparisons at h
    grind [refuse]
  | cons operand deeper ih =>
    intro left ls e out h
    unfold comparisons at h
    grind [→ Reader.shortens]

/-- a chain of comparisons whose operands come from these readers, one for each level from here down -/
def comparison (operator? : Lexeme → Option BinaryOp) (operand : Reader Expr) (deeper : List (Reader Expr)) :
    Reader Expr where
  run ls := match operand.run ls with
    | .error e => .error e
    | .ok (left, rest) => comparisons operator? deeper left rest
  shortens ls e out h := by
    split at h
    · simp at h
    · rename_i ho
      have := operand.shortens _ _ _ ho
      have := comparisons_length _ _ _ _ _ _ h
      omega

/-- the chains of relations for each level, given the operands with `!` of each level -/
def relations : List (Reader Expr) → List (Reader Expr)
  | [] => []
  | operand :: deeper => comparison relation? operand deeper :: relations deeper

/-- an implication: a disjunction, and after `=>` an expression one level deeper -/
def implication (unary : Reader Expr) (deeper : List (Reader Expr)) (nested : Reader Expr) : Reader Expr where
  run ls :=
    let equality := comparison equality? (comparison relation? unary deeper) (relations deeper)
    match (chain .or disjunction (chain .and conjunction equality)).run ls with
    | .error e => .error e
    | .ok (left, []) => .ok (left, [])
    | .ok (left, l :: rest) =>
      if l = arrow then
        match nested.run rest with
        | .error e => .error e
        | .ok (right, rest) => .ok (.binary .implies left right, rest)
      else .ok (left, l :: rest)
  shortens ls e out h := by
    simp only at h
    split at h
    · simp at h
    · rename_i hc
      have := Reader.shortens _ _ _ _ hc
      simp_all
    · rename_i hc
      have hs := Reader.shortens _ _ _ _ hc
      split at h
      · split at h
        · simp at h
        · rename_i hn
          have := nested.shortens _ _ _ hn
          simp_all
          omega
      · simp only [Except.ok.injEq, Prod.mk.injEq] at h
        simpa [← h.2] using hs

/-! ## Levels -/

/-- the readers of one level: for an expression one level deeper, and for operands with `!` here and ever deeper -/
structure Level where
  nested : Reader Expr
  unary : Reader Expr
  deeper : List (Reader Expr)

/-- the readers that have `n` levels below them -/
def level : Nat → Level
  | 0 => ⟨tooDeep, unary 0 tooDeep tooDeep, []⟩
  | n + 1 =>
    let inner := level n
    let nested := implication inner.unary inner.deeper inner.nested
    ⟨nested, unary (n + 1) inner.unary nested, inner.unary :: inner.deeper⟩

/-- the reader of whole expressions -/
def expression : Reader Expr := (level depthLimit).nested

end Reading

/-- The position of the token before which `left` tokens were left, or where the last one has ended. -/
def positionOf (tokens : List Token) (left : Nat) : Nat :=
  match tokens.drop (tokens.length - left) with
  | t :: _ => t.start
  | [] => (tokens.getLast?.map (·.stop)).getD 0

/-- the expression that all the tokens make up -/
def Expr.ofTokens? (tokens : List Token) : Except ParseError Expr :=
  match Reading.expression.run (tokens.map (·.toLexeme)) with
  | .error r => .error ⟨r.cause, positionOf tokens r.left⟩
  | .ok (e, []) => .ok e
  | .ok (_, l :: rest) => .error ⟨.unexpected l.text, positionOf tokens (rest.length + 1)⟩

end Proviso
