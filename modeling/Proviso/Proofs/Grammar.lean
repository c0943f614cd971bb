/-
The grammar of expressions, as a relation between lexemes and trees.

`Derives c d ls e` says that the lexemes `ls`, from the first to the last, make up a phrase of category `c` that stands
`d` levels deep, and that `e` is its tree. The rules name no reader and look at no lexeme ahead. What bounds nesting is
written into them: an expression stands one level deeper than the place it is written at, the operand of `!` one level
deeper than the `!`, the right operand of the i-th comparison in a chain i levels deeper than the chain, and the j-th
`.length` of a term needs j levels below it; `depthLimit` is the last level there is.

`Derives.opened` tells what a phrase can start with; in particular no phrase is empty or starts with a closing lexeme.
-/
import Proviso.Expr.Reading

namespace Proviso

namespace Grammar

open Reading

/-- The categories of phrases. `equalities i` and `relations i` are chains with `i` comparisons so far, and `suffixes j`
is a term of which `j` suffixes so far are `.length`. -/
inductive Category where
  | expression | implication | disjunction | conjunction
  | equality | equalities (i : Nat)
  | relation | relations (i : Nat)
  | unary
  | term | suffixes (j : Nat)
  | primary
  deriving DecidableEq, Repr

/-- the lexemes of a phrase and its tree -/
abbrev Part := List Lexeme × Expr

/-- the lexemes of some phrases with a separator between them -/
def joined (separator : Lexeme) (parts : List Part) : List Lexeme := [separator].intercalate (parts.map (·.1))

/-- the trees of some phrases -/
def trees (parts : List Part) : List Expr := parts.map (·.2)

/-- the lexeme by which an operator is written -/
def operator (op : BinaryOp) : Lexeme := ⟨.operator, op.symbol⟩

/-- `Derives c d ls e`: the lexemes `ls` are a phrase of category `c` at level `d`, and `e` is its tree -/
inductive Derives : Category → Nat → List Lexeme → Expr → Prop where
  | expression {d ls e} (level : d < depthLimit) (inner : Derives .implication (d + 1) ls e) :
    Derives .expression d ls e
  -- `=>` binds loosest and nests to the right
  | consequence {d ls e} (inner : Derives .disjunction d ls e) : Derives .implication d ls e
  | implies {d xs ys a b} (left : Derives .disjunction d xs a) (right : Derives .expression d ys b) :
    Derives .implication d (xs ++ arrow :: ys) (.binary .implies a b)
  | disjunction {d} (parts : List Part) (some_part : parts ≠ [])
    (operands : ∀ p ∈ parts, Derives .conjunction d p.1 p.2) :
    Derives .disjunction d (joined (operator .or) parts) (.balanced .or (trees parts))
  | conjunction {d} (parts : List Part) (some_part : parts ≠ [])
    (operands : ∀ p ∈ parts, Derives .equality d p.1 p.2) :
    Derives .conjunction d (joined (operator .and) parts) (.balanced .and (trees parts))
  -- comparisons nest to the left
  | equality {d i ls e} (chain : Derives (.equalities i) d ls e) : Derives .equality d ls e
  | firstEquality {d ls e} (operand : Derives .relation d ls e) : Derives (.equalities 0) d ls e
  | nextEquality {d i xs ys a b op} (left : Derives (.equalities i) d xs a) (equates : op = .eq ∨ op = .ne)
    (level : d + (i + 1) ≤ depthLimit) (right : Derives .relation (d + (i + 1)) ys b) :
    Derives (.equalities (i + 1)) d (xs ++ operator op :: ys) (.binary op a b)
  | relation {d i ls e} (chain : Derives (.relations i) d ls e) : Derives .relation d ls e
  | firstRelation {d ls e} (operand : Derives .unary d ls e) : Derives (.relations 0) d ls e
  | nextRelation {d i xs ys a b op} (left : Derives (.relations i) d xs a)
    (relates : op = .lt ∨ op = .le ∨ op = .gt ∨ op = .ge)
    (level : d + (i + 1) ≤ depthLimit) (right : Derives .unary (d + (i + 1)) ys b) :
    Derives (.relations (i + 1)) d (xs ++ operator op :: ys) (.binary op a b)
  | not {d ls e} (level : d + 1 ≤ depthLimit) (operand : Derives .unary (d + 1) ls e) :
    Derives .unary d (bang :: ls) (.not e)
  | positive {d ls e} (inner : Derives .term d ls e) : Derives .unary d ls e
  -- a field path grows to the right; any term has a length
  | term {d j ls e} (chain : Derives (.suffixes j) d ls e) : Derives .term d ls e
  | bare {d ls e} (inner : Derives .primary d ls e) : Derives (.suffixes 0) d ls e
  | key {d j ls p name} (path : Derives (.suffixes j) d ls (.field p)) (other : name ≠ "length") :
    Derives (.suffixes j) d (ls ++ [dot, ⟨.identifier, name⟩]) (.field (p.push (.key name)))
  | position {d j ls p text i} (path : Derives (.suffixes j) d ls (.field p))
    (index : Decimal.index? text.toList = some i) :
    Derives (.suffixes j) d (ls ++ [openBracket, ⟨.number, text⟩, closeBracket]) (.field (p.push (.index i)))
  | quotedKey {d j ls p name} (path : Derives (.suffixes j) d ls (.field p)) :
    Derives (.suffixes j) d (ls ++ [openBracket, ⟨.string, name⟩, closeBracket]) (.field (p.push (.key name)))
  | length {d j ls e} (inner : Derives (.suffixes j) d ls e) (level : d + (j + 1) ≤ depthLimit) :
    Derives (.suffixes (j + 1)) d (ls ++ [dot, ⟨.identifier, "length"⟩]) (.length e)
  | every {d j ls ys p param e} (path : Derives (.suffixes j) d ls (.field p)) (body : Derives .expression d ys e) :
    Derives (.suffixes j) d
      (ls ++ dot :: ⟨.identifier, "every"⟩ :: openParen :: ⟨.identifier, param⟩ :: arrow :: (ys ++ [closeParen]))
      (.every p param e)
  | number {d text n} (denotes : number? text = some n) : Derives .primary d [⟨.number, text⟩] (.literal n)
  | string {d text} : Derives .primary d [⟨.string, text⟩] (.literal (.string text))
  | word {d name l} (denotes : word? name = some l) : Derives .primary d [⟨.identifier, name⟩] (.literal l)
  | field {d name} (free : word? name = none) : Derives .primary d [⟨.identifier, name⟩] (.field ⟨name, []⟩)
  | call {d} (f : Builtin) (parts : List Part) (arity : f.accepts parts.length = true)
    (args : ∀ p ∈ parts, Derives .expression d p.1 p.2) :
    Derives .primary d (⟨.identifier, f.name⟩ :: openParen :: (joined comma parts ++ [closeParen]))
      (.call f (trees parts))
  | array {d} (parts : List Part) (items : ∀ p ∈ parts, Derives .expression d p.1 p.2) :
    Derives .primary d (openBracket :: (joined comma parts ++ [closeBracket])) (.array (trees parts))
  | parenthesised {d ls e} (inner : Derives .expression d ls e) :
    Derives .primary d (openParen :: (ls ++ [closeParen])) e

/-! ## Phrases in a row -/

@[simp] theorem joined_nil (separator : Lexeme) : joined separator [] = [] := rfl

@[simp] theorem joined_singleton (separator : Lexeme) (p : Part) : joined separator [p] = p.1 := by
  simp [joined, List.intercalate]

@[simp] theorem joined_cons_cons (separator : Lexeme) (p q : Part) (parts : List Part) :
    joined separator (p :: q :: parts) = p.1 ++ separator :: joined separator (q :: parts) := by
  simp [joined, List.intercalate]

@[simp] theorem trees_nil : trees [] = [] := rfl

@[simp] theorem trees_cons (p : Part) (parts : List Part) : trees (p :: parts) = p.2 :: trees parts := rfl

@[simp] theorem length_trees (parts : List Part) : (trees parts).length = parts.length := by simp [trees]

/-- some phrases in a row start as the first of them does -/
theorem joined_cons_eq (separator : Lexeme) (p : Part) (parts : List Part) :
    ∃ more, joined separator (p :: parts) = p.1 ++ more := by
  cases parts with
  | nil => exact ⟨[], by simp⟩
  | cons q parts => exact ⟨_, joined_cons_cons separator p q parts⟩

theorem sublist_joined (separator : Lexeme) {parts : List Part} {p : Part} (hp : p ∈ parts) :
    p.1.Sublist (joined separator parts) := by
  induction parts with
  | nil => cases hp
  | cons q parts ih =>
    cases parts with
    | nil =>
      obtain rfl := List.mem_singleton.1 hp
      simp
    | cons r parts =>
      rw [joined_cons_cons]
      rcases List.mem_cons.1 hp with rfl | hrest
      · exact List.sublist_append_left _ _
      · exact ((ih hrest).cons separator).trans (List.sublist_append_right _ _)

/-! ## What a phrase starts with -/

/-- the categories of terms and their parts, before which no `!` can stand -/
def Category.isTerm : Category → Bool
  | .term | .suffixes _ | .primary => true
  | _ => false

/-- what a lexeme must be to start a phrase: nothing that closes, and no `!` when a term starts -/
structure Opens (isTerm : Bool) (l : Lexeme) : Prop where
  not_paren : l ≠ closeParen
  not_bracket : l ≠ closeBracket
  not_bang : isTerm = true → l ≠ bang

/-- there is a first lexeme, and it can start a phrase -/
def Opened (isTerm : Bool) (ls : List Lexeme) : Prop := ∃ l rest, ls = l :: rest ∧ Opens isTerm l

theorem Opened.append {isTerm : Bool} {ls : List Lexeme} (h : Opened isTerm ls) (more : List Lexeme) :
    Opened isTerm (ls ++ more) := by
  obtain ⟨l, rest, rfl, ho⟩ := h
  exact ⟨l, rest ++ more, rfl, ho⟩

theorem Opened.of_term {ls : List Lexeme} (h : Opened true ls) : Opened false ls := by
  obtain ⟨l, rest, rfl, ho⟩ := h
  exact ⟨l, rest, rfl, ho.not_paren, ho.not_bracket, by simp⟩

theorem Opened.joined {isTerm : Bool} {parts : List Part} (separator : Lexeme) (some_part : parts ≠ [])
    (h : ∀ p ∈ parts, Opened isTerm p.1) : Opened isTerm (joined separator parts) := by
  obtain ⟨p, ps, rfl⟩ := List.exists_cons_of_ne_nil some_part
  obtain ⟨more, hm⟩ := joined_cons_eq separator p ps
  rw [hm]
  exact (h p List.mem_cons_self).append more

theorem opened_of_kind {isTerm : Bool} (l : Lexeme) (rest : List Lexeme)
    (h : l.kind = .number ∨ l.kind = .string ∨ l.kind = .identifier) : Opened isTerm (l :: rest) := by
  refine ⟨l, rest, rfl, ?_, ?_, fun _ => ?_⟩ <;> rintro rfl <;> simp [closeParen, closeBracket, bang] at h

/-- **Every phrase starts with a lexeme that opens one.** No phrase is empty, none starts with a closing lexeme, and no
term starts with `!`. -/
theorem Derives.opened {c : Category} {d : Nat} {ls : List Lexeme} {e : Expr} (h : Derives c d ls e) :
    Opened c.isTerm ls := by
  induction h with
  | expression _ _ ih => exact ih
  | consequence _ ih => exact ih
  | implies _ _ ih _ => exact ih.append _
  | disjunction _ some_part _ ih => exact Opened.joined _ some_part ih
  | conjunction _ some_part _ ih => exact Opened.joined _ some_part ih
  | equality _ ih => exact ih
  | firstEquality _ ih => exact ih
  | nextEquality _ _ _ _ ih _ => exact ih.append _
  | relation _ ih => exact ih
  | firstRelation _ ih => exact ih
  | nextRelation _ _ _ _ ih _ => exact ih.append _
  | not _ _ _ => exact ⟨bang, _, rfl, by decide, by decide, nofun⟩
  | positive _ ih => exact ih.of_term
  | term _ ih => exact ih
  | bare _ ih => exact ih
  | key _ _ ih => exact ih.append _
  | position _ _ ih => exact ih.append _
  | quotedKey _ ih => exact ih.append _
  | length _ _ ih => exact ih.append _
  | every _ _ ih _ => exact ih.append _
  | number _ => exact opened_of_kind _ _ (.inl rfl)
  | string => exact opened_of_kind _ _ (.inr (.inl rfl))
  | word _ => exact opened_of_kind _ _ (.inr (.inr rfl))
  | field _ => exact opened_of_kind _ _ (.inr (.inr rfl))
  | call _ _ _ _ _ => exact opened_of_kind _ _ (.inr (.inr rfl))
  | array _ _ _ => exact ⟨openBracket, _, rfl, by decide, by decide, fun _ => by decide⟩
  | parenthesised _ _ => exact ⟨openParen, _, rfl, by decide, by decide, fun _ => by decide⟩

end Grammar

end Proviso
