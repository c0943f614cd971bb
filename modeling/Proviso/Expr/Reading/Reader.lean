/-
Readers of lexemes, and what they are put together from.

A reader takes lexemes from the front and leaves the rest, and its `shortens` proves that it takes one at least. That is
why a list of items ends: each item leaves less to read. A refusal counts the lexemes that were left.
-/
import Proviso.Expr
import Proviso.Expr.ParseError
import Proviso.Token

namespace Proviso

namespace Reading

/-- a cause, and how many lexemes were left when it showed -/
structure Refusal where
  cause : ParseError.Cause
  left : Nat
  deriving DecidableEq, Repr

/-- what was read and the lexemes after it -/
abbrev Outcome (α : Type) := Except Refusal (α × List Lexeme)

/-- a reader takes lexemes from the front, at least one when it succeeds -/
structure Reader (α : Type) where
  run : List Lexeme → Outcome α
  shortens : ∀ ls a rest, run ls = .ok (a, rest) → rest.length < ls.length

/-- refusal before the lexemes `ls` -/
def refuse {α : Type} (cause : ParseError.Cause) (ls : List Lexeme) : Except Refusal α := .error ⟨cause, ls.length⟩

/-! ## The fixed lexemes -/

def openParen : Lexeme := ⟨.paren, "("⟩
def closeParen : Lexeme := ⟨.paren, ")"⟩
def openBracket : Lexeme := ⟨.bracket, "["⟩
def closeBracket : Lexeme := ⟨.bracket, "]"⟩
def comma : Lexeme := ⟨.comma, ","⟩
def dot : Lexeme := ⟨.dot, "."⟩
def arrow : Lexeme := ⟨.arrow, "=>"⟩
def bang : Lexeme := ⟨.operator, "!"⟩
def conjunction : Lexeme := ⟨.operator, "&&"⟩
def disjunction : Lexeme := ⟨.operator, "||"⟩

/-- what follows a lexeme that must stand here -/
def expect (want : Lexeme) : List Lexeme → Except Refusal (List Lexeme)
  | [] => refuse (.expectedBeforeEnd want.text) []
  | found :: rest => if found = want then .ok rest else refuse (.expected want.text found.text) (found :: rest)

theorem expect_eq_ok {want : Lexeme} {ls rest : List Lexeme} : expect want ls = .ok rest ↔ ls = want :: rest := by
  cases ls with
  | nil => simp [expect, refuse]
  | cons found tail =>
    simp only [expect, List.cons.injEq]
    split <;> simp_all [refuse]

/-! ## Lists and chains -/

/-- one or more items with a separator between them -/
def separated {α : Type} (item : Reader α) (separator : Lexeme) (ls : List Lexeme) : Outcome (List α) :=
  match _h : item.run ls with
  | .error e => .error e
  | .ok (x, []) => .ok ([x], [])
  | .ok (x, l :: rest) =>
    if l = separator then
      match separated item separator rest with
      | .error e => .error e
      | .ok (xs, rest) => .ok (x :: xs, rest)
    else .ok ([x], l :: rest)
termination_by ls.length
decreasing_by
  have := item.shortens _ _ _ _h
  simp only [List.length_cons] at this
  omega

theorem separated_shortens {α : Type} (item : Reader α) (separator : Lexeme) :
    ∀ ls xs rest, separated item separator ls = .ok (xs, rest) → rest.length < ls.length := by
  intro ls
  fun_induction separated item separator ls with
  | case1 => simp
  | case2 ls x h => grind [item.shortens _ _ _ h]
  | case3 => simp
  | case4 ls x rest xs rest' hs h ih => grind [item.shortens _ _ _ h]
  | case5 ls x l rest h hl => grind [item.shortens _ _ _ h]

theorem separated_of_last {α : Type} {item : Reader α} {separator : Lexeme} {ls rest : List Lexeme} {x : α}
    (h : item.run ls = .ok (x, rest)) (hr : rest.head? ≠ some separator) :
    separated item separator ls = .ok ([x], rest) := by
  cases rest with
  | nil => rw [separated]; split <;> simp_all
  | cons l rest => rw [separated]; split <;> simp_all

theorem separated_of_error {α : Type} {item : Reader α} {ls : List Lexeme} {r : Refusal} (h : item.run ls = .error r)
    (separator : Lexeme) : separated item separator ls = .error r := by
  rw [separated]
  split <;> simp_all

theorem separated_of_more {α : Type} {item : Reader α} {separator : Lexeme} {ls rest out : List Lexeme} {x : α}
    {xs : List α} (h : item.run ls = .ok (x, separator :: rest)) (hs : separated item separator rest = .ok (xs, out)) :
    separated item separator ls = .ok (x :: xs, out) := by
  rw [separated]
  split <;> simp_all

theorem separated_of_later_error {α : Type} {item : Reader α} {separator : Lexeme} {ls rest : List Lexeme} {x : α}
    {r : Refusal} (h : item.run ls = .ok (x, separator :: rest)) (hs : separated item separator rest = .error r) :
    separated item separator ls = .error r := by
  rw [separated]
  split <;> simp_all

/-- the items up to a closing lexeme, separated by commas; there may be none -/
def listUntil {α : Type} (close : Lexeme) (item : Reader α) (ls : List Lexeme) : Outcome (List α) :=
  let items : Outcome (List α) :=
    match separated item comma ls with
    | .error e => .error e
    | .ok (xs, rest) =>
      match expect close rest with
      | .error e => .error e
      | .ok rest => .ok (xs, rest)
  match ls with
  | l :: rest => if l = close then .ok ([], rest) else items
  | [] => items

theorem listUntil_eq_ok {α : Type} {close : Lexeme} {item : Reader α} {ls : List Lexeme} {xs : List α}
    {rest : List Lexeme} : listUntil close item ls = .ok (xs, rest) ↔
      ls = close :: rest ∧ xs = [] ∨ ls.head? ≠ some close ∧ separated item comma ls = .ok (xs, close :: rest) := by
  have items : ∀ ls : List Lexeme, (match separated item comma ls with
      | .error e => .error e
      | .ok (xs, rest) =>
        match expect close rest with
        | .error e => .error e
        | .ok rest => .ok (xs, rest) : Outcome (List α)) = .ok (xs, rest) ↔
      separated item comma ls = .ok (xs, close :: rest) := by
    intro ls
    rcases separated item comma ls with e | ⟨ys, mid⟩
    · simp
    · cases mid with
      | nil => simp [expect, refuse]
      | cons found tail =>
        by_cases hf : found = close
        · simp [expect, hf]
        · simp [expect, refuse, hf]
  cases ls with
  | nil => simp [listUntil, items]
  | cons l tail =>
    simp only [listUntil]
    split
    · next hl => simp [hl, and_comm, eq_comm]
    · next hl => simp [hl, items]

theorem listUntil_shortens {α : Type} (close : Lexeme) (item : Reader α) (ls : List Lexeme) (xs : List α)
    (rest : List Lexeme) (h : listUntil close item ls = .ok (xs, rest)) : rest.length < ls.length := by
  rcases listUntil_eq_ok.1 h with ⟨rfl, -⟩ | ⟨-, hs⟩
  · simp
  · have := separated_shortens item comma _ _ _ hs
    simp only [List.length_cons] at this
    omega

/-- operands of `&&` or `||`, folded into a balanced tree -/
def chain (op : BinaryOp) (operator : Lexeme) (operand : Reader Expr) : Reader Expr where
  run ls := match separated operand operator ls with
    | .error e => .error e
    | .ok (es, rest) => .ok (.balanced op es, rest)
  shortens ls e rest h := by
    split at h
    · simp at h
    · rename_i es out hs
      have := separated_shortens operand operator _ _ _ hs
      simp_all

end Reading

end Proviso
