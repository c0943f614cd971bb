/-
How high the tree of an expression can be.

Levels of nesting bound the height only in part: a chain of comparisons or of `.length` uses levels but gives them back,
so it may stand on an operand that has used all of them, and this at every level; and `&&` and `||` use no levels at all.
`Category.ceiling` adds up what each category of phrases can do with `r` levels below it, when a chain of `&&` or `||`
adds `l` at most, and `Derives.height_lt` shows by induction on derivations that no tree reaches that ceiling. For whole
expressions the ceiling is a constant and 64 times the logarithm of the number of tokens (`height_logarithmic`).
-/
import Mathlib.Data.Nat.Log
import Proviso.Proofs.Eval.Depth
import Proviso.Proofs.Grammar.Complete

namespace Proviso

namespace Grammar

open Reading

/-! ## How long the parts of a phrase are -/

/-- phrases are not empty, so there are no more of them in a row than there are lexemes -/
theorem length_parts_le_joined (separator : Lexeme) {parts : List Part} (hparts : ∀ p ∈ parts, p.1 ≠ []) :
    parts.length ≤ (joined separator parts).length := by
  induction parts with
  | nil => exact Nat.zero_le _
  | cons q parts ih =>
    have hq : 0 < q.1.length := List.length_pos_iff.2 (hparts q List.mem_cons_self)
    cases parts with
    | nil =>
      rw [joined_singleton]
      exact hq
    | cons r parts =>
      have hrest := ih fun p hp => hparts p (List.mem_cons_of_mem q hp)
      rw [joined_cons_cons, List.length_append]
      simp only [List.length_cons] at hrest ⊢
      omega

theorem Derives.ne_nil {c : Category} {d : Nat} {ls : List Lexeme} {e : Expr} (h : Derives c d ls e) : ls ≠ [] := by
  obtain ⟨l, rest, rfl, -⟩ := h.opened
  exact List.cons_ne_nil l rest

/-! ## The ceiling -/

/-- what no expression with `r` levels from its own on down reaches: each level adds two chains of comparisons and one
of `.length` over the levels below it, two chains that add `l` each, an implication, and the node that opens the next -/
def room (l : Nat) : Nat → Nat
  | 0 => 0
  | r + 1 => room l r + 3 * r + 2 * l + 2

theorem room_mono (l : Nat) {r s : Nat} (h : r ≤ s) : room l r ≤ room l s := by
  induction h with
  | refl => exact Nat.le_refl _
  | step _ ih =>
    rw [room]
    omega

/-- what no phrase of a category reaches that has `r` levels below it -/
def Category.ceiling (l r : Nat) : Category → Nat
  | .expression => room l r
  | .implication => room l r + 3 * r + 2 * l + 2
  | .disjunction => room l r + 3 * r + 2 * l + 1
  | .conjunction => room l r + 3 * r + l + 1
  | .equality => room l r + 3 * r + 1
  | .equalities i => room l r + 2 * r + min i r + 1
  | .relation => room l r + 2 * r + 1
  | .relations i => room l r + r + min i r + 1
  | .unary => room l r + r + 1
  | .term => room l r + r + 1
  | .suffixes j => room l r + min j r + 1
  | .primary => room l r + 1

/-- a chain of operands below a ceiling reaches no more than `l` above it -/
theorem height_chain_lt (op : BinaryOp) (h : Nat) {separator : Lexeme} {parts : List Part} {l : Nat}
    (hparts : ∀ p ∈ parts, p.1 ≠ [] ∧ p.2.height < h + 1) (hlength : (joined separator parts).length ≤ 2 ^ l) :
    (Expr.balanced op (trees parts)).height < h + l + 1 := by
  have hfew : (trees parts).length ≤ 2 ^ l := by
    rw [length_trees]
    exact Nat.le_trans (length_parts_le_joined separator fun p hp => (hparts p hp).1) hlength
  refine Nat.lt_succ_of_le (Expr.height_balanced_le op (fun e he => ?_) hfew)
  obtain ⟨p, hp, rfl⟩ := List.mem_map.1 he
  exact Nat.le_of_lt_succ (hparts p hp).2

/-- a node over expressions of one level fills the room of that level at most -/
theorem heightOver_le_room (separator : Lexeme) {parts : List Part} {l r : Nat}
    (hparts : ∀ p ∈ parts, p.1.length ≤ 2 ^ l → p.2.height < room l r)
    (hlength : (joined separator parts).length ≤ 2 ^ l) : Expr.heightOver (trees parts) ≤ room l r := by
  refine Expr.heightOver_le_iff.2 fun e he => ?_
  obtain ⟨p, hp, rfl⟩ := List.mem_map.1 he
  exact hparts p hp (Nat.le_trans (sublist_joined separator hp).length_le hlength)

/-- **No phrase reaches its ceiling.** -/
theorem Derives.height_lt {c : Category} {d l : Nat} {ls : List Lexeme} {e : Expr} (h : Derives c d ls e)
    (hlength : ls.length ≤ 2 ^ l) : e.height < c.ceiling l (depthLimit - d) := by
  induction h with
  | @expression d ls e level _ ih =>
    -- an expression has the room of the implication one level deeper
    rw [show depthLimit - d = depthLimit - (d + 1) + 1 by omega]
    exact ih hlength
  | implies _ _ iha ihb =>
    rw [List.length_append, List.length_cons] at hlength
    have ha := iha (by omega)
    have hb := ihb (by omega)
    simp only [Category.ceiling] at ha hb ⊢
    exact Nat.lt_succ_of_le (Expr.height_binary_le ha (by omega))
  | @disjunction d parts _ operands ih =>
    have hchain := height_chain_lt .or (room l (depthLimit - d) + 3 * (depthLimit - d) + l)
      (fun p hp => ⟨(operands p hp).ne_nil, ih p hp (Nat.le_trans (sublist_joined _ hp).length_le hlength)⟩) hlength
    simp only [Category.ceiling]
    omega
  | @conjunction d parts _ operands ih =>
    exact height_chain_lt .and (room l (depthLimit - d) + 3 * (depthLimit - d))
      (fun p hp => ⟨(operands p hp).ne_nil, ih p hp (Nat.le_trans (sublist_joined _ hp).length_le hlength)⟩) hlength
  | @nextEquality d i _ _ a b op _ _ level _ iha ihb | @nextRelation d i _ _ a b op _ _ level _ iha ihb =>
    -- the right operand stands `i + 1` levels deeper, where there is less room
    rw [List.length_append, List.length_cons] at hlength
    have ha := iha (by omega)
    have hb := ihb (by omega)
    have hroom := room_mono l (show depthLimit - (d + (i + 1)) ≤ depthLimit - d by omega)
    simp only [Category.ceiling] at ha hb ⊢
    have hnode : (Expr.binary op a b).height ≤ _ := Expr.height_binary_le ha (by omega)
    omega
  | @not d _ _ level _ ih =>
    rw [List.length_cons] at hlength
    have he := ih (by omega)
    have hroom := room_mono l (show depthLimit - (d + 1) ≤ depthLimit - d by omega)
    simp only [Category.ceiling, Expr.height] at he ⊢
    omega
  | length _ level ih =>
    rw [List.length_append] at hlength
    have he := ih (by omega)
    simp only [Category.ceiling, Expr.height] at he ⊢
    omega
  | every _ _ _ ih =>
    simp only [List.length_append, List.length_cons] at hlength
    have hbody := ih (by omega)
    simp only [Category.ceiling, Expr.height] at hbody ⊢
    omega
  | call _ _ _ _ ih | array _ _ ih =>
    simp only [List.length_append, List.length_cons] at hlength
    exact Nat.lt_succ_of_le (heightOver_le_room comma ih (by omega))
  | parenthesised _ ih =>
    simp only [List.length_append, List.length_cons] at hlength
    exact Nat.lt_succ_of_lt (ih (by omega))
  | consequence _ ih | equality _ ih | firstEquality _ ih | relation _ ih | firstRelation _ ih | positive _ ih
  | term _ ih | bare _ ih =>
    -- the same tree under a ceiling that is no lower
    have he := ih hlength
    simp only [Category.ceiling] at he ⊢
    omega
  | key | position | quotedKey | number | string | word | field => simp [Category.ceiling, Expr.height]

/-! ## Whole expressions -/

theorem room_depthLimit (l : Nat) : room l depthLimit = 1552 + 64 * l := by
  simp only [depthLimit, room]
  omega

/-- **Expressions stay low.** The tree that `n` tokens are read into is no higher than 1551 and 64 times the logarithm
of `n`, rounded up; so no record makes its evaluation nest deeper than that. -/
theorem height_logarithmic {tokens : List Token} {e : Expr} (h : Expr.ofTokens? tokens = .ok e) :
    e.height ≤ 1551 + 64 * Nat.clog 2 tokens.length ∧
      ∀ env, Expr.evalWithin (1552 + 64 * Nat.clog 2 tokens.length) env e = some (e.eval env) := by
  have hlength : (tokens.map (·.toLexeme)).length ≤ 2 ^ Nat.clog 2 tokens.length := by
    rw [List.length_map]
    exact Nat.le_pow_clog Nat.one_lt_two tokens.length
  have hlow : e.height < room (Nat.clog 2 tokens.length) depthLimit := (derives_of_ofTokens? h).height_lt hlength
  rw [room_depthLimit] at hlow
  exact ⟨by omega, fun env => Expr.evalWithin_eq_some hlow⟩

/-- `a || b || c`, five tokens: two disjunctions stand on each other, where 1743 are allowed -/
theorem three_alternatives_low :
    let field (name : String) := Expr.field ⟨name, []⟩
    Expr.ofTokens? [⟨⟨.identifier, "a"⟩, 0, 1⟩, ⟨⟨.operator, "||"⟩, 2, 4⟩, ⟨⟨.identifier, "b"⟩, 5, 6⟩,
        ⟨⟨.operator, "||"⟩, 7, 9⟩, ⟨⟨.identifier, "c"⟩, 10, 11⟩] =
      .ok (.binary .or (.binary .or (field "a") (field "b")) (field "c")) ∧
    (Expr.binary .or (.binary .or (field "a") (field "b")) (field "c")).height ≤ 1551 + 64 * Nat.clog 2 5 := by
  intro field
  have hread : Expr.ofTokens? [⟨⟨.identifier, "a"⟩, 0, 1⟩, ⟨⟨.operator, "||"⟩, 2, 4⟩, ⟨⟨.identifier, "b"⟩, 5, 6⟩,
        ⟨⟨.operator, "||"⟩, 7, 9⟩, ⟨⟨.identifier, "c"⟩, 10, 11⟩] =
      .ok (.binary .or (.binary .or (field "a") (field "b")) (field "c")) := by decide +kernel
  exact ⟨hread, (height_logarithmic hread).1⟩

end Grammar

end Proviso
