/-
Parentheses around an expression.

An expression in parentheses is the same expression, one level higher than it stands (`derives_enclosed`). So an expression
in `k` parentheses is read as itself when it may stand `k` levels deep. When it may not, then it is refused as too deep: its
readers there are cut off, and the parentheses pass the refusal on (`enclosed_refused`). As it may stand at every level
above one where it may stand, fewer parentheses are never worse than more (`parentheses_transparent`).
-/
import Proviso.Proofs.Grammar.Levels
import Proviso.Proofs.Grammar.Text

namespace Proviso

namespace Grammar

open Reading

variable {ls xs rest : List Lexeme} {e : Expr} {d k : Nat}

/-- the lexemes between `k` opening parentheses and as many closing ones -/
def enclosed (k : Nat) (ls : List Lexeme) : List Lexeme :=
  List.replicate k openParen ++ ls ++ List.replicate k closeParen

theorem enclosed_zero (ls : List Lexeme) : enclosed 0 ls = ls := by simp [enclosed]

theorem enclosed_succ (k : Nat) (ls : List Lexeme) :
    enclosed (k + 1) ls = openParen :: (enclosed k ls ++ [closeParen]) := by
  rw [enclosed, enclosed, List.replicate_succ, List.replicate_succ' (n := k)]
  simp

/-! ## Levels of an expression -/

theorem derives_of_run (h : (readers d).nested.run (ls ++ rest) = .ok (e, rest)) : Derives .expression d ls e := by
  obtain ⟨taken, htaken, hderives⟩ := (readers_sound d).1 _ _ _ h
  obtain rfl := List.append_cancel_right htaken
  exact hderives

/-- an expression may stand at every level above one where it may stand -/
theorem Derives.expression_above {d' : Nat} (h : Derives .expression d' ls e) (hd : d ≤ d') :
    Derives .expression d ls e := by
  have hrun : (readers d').nested.run (ls ++ []) = .ok (e, []) := h.read [] (ends_nil _)
  rcases readers_cutsOff hd (ls ++ []) with heq | ⟨left, hdeep⟩
  · exact derives_of_run (heq.symm.trans hrun)
  · rw [hrun] at hdeep
    cases hdeep

theorem Derives.lt_depthLimit (h : Derives .expression d ls e) : d < depthLimit := by
  cases h with
  | expression level _ => exact level

/-- an expression in parentheses stands one level higher -/
theorem derives_enclosed (h : Derives .expression (d + k) ls e) : Derives .expression d (enclosed k ls) e := by
  induction k generalizing d with
  | zero =>
    rw [enclosed_zero]
    exact h
  | succ k ih =>
    have hinner : Derives .expression (d + 1) (enclosed k ls) e := by
      apply ih
      rwa [Nat.add_right_comm]
    have hlevel : d < depthLimit := Nat.lt_of_succ_lt hinner.lt_depthLimit
    rw [enclosed_succ]
    exact .expression_of_term hlevel (.term (.bare (.parenthesised hinner)))

/-! ## Refusals -/

/-- what is refused within parentheses is refused with them -/
theorem parenthesised_refused {r : Refusal} (hd : d < depthLimit) (h : (readers (d + 1)).nested.run xs = .error r) :
    (readers d).nested.run (openParen :: xs) = .error r := by
  have hprimary : primary (readers (d + 1)).nested (openParen :: xs) = .error r := by
    simp [primary, openParen, h]
  have hunary : (readers (d + 1)).unary.run (openParen :: xs) = .error r := by
    have hbang : openParen ≠ bang := by decide
    rw [readers_unary]
    simp [Reading.unary, hbang, postfixed, hprimary]
  have hequality : (equality (d + 1)).run (openParen :: xs) = .error r := by
    simp [equality, relation, comparison, hunary]
  have hconjunction : (conjunctions (d + 1)).run (openParen :: xs) = .error r := by
    simp [conjunctions, chain, separated_of_error hequality]
  have hdisjunction : (disjunctions (d + 1)).run (openParen :: xs) = .error r := by
    simp [disjunctions, chain, separated_of_error hconjunction]
  rw [readers_nested hd, implications_run, hdisjunction]

/-- an expression in more parentheses than there are levels for it is refused as too deep -/
theorem enclosed_refused (h : Derives .expression 0 ls e) (hdeep : ¬Derives .expression (d + k) ls e)
    (hrest : Ends 6 rest) : ∃ left, (readers d).nested.run (enclosed k ls ++ rest) = .error ⟨.tooDeep, left⟩ := by
  induction k generalizing d rest with
  | zero =>
    have hrun : (readers 0).nested.run (ls ++ rest) = .ok (e, rest) := h.read rest hrest
    rw [enclosed_zero]
    -- the readers here do as those of level 0 do, or are cut off; in the first case the expression could stand here
    rcases readers_cutsOff (Nat.zero_le d) (ls ++ rest) with heq | hrefused
    · exact absurd (derives_of_run (heq.trans hrun)) hdeep
    · exact hrefused
  | succ k ih =>
    rw [enclosed_succ, List.cons_append, List.append_assoc, List.singleton_append]
    rcases Nat.lt_or_ge d depthLimit with hlt | hge
    · rw [Nat.add_comm k 1, ← Nat.add_assoc] at hdeep
      obtain ⟨left, hinner⟩ := ih hdeep (ends_closeParen rest)
      exact ⟨left, parenthesised_refused hlt hinner⟩
    · rw [readers_nested_of_le hge]
      exact ⟨_, rfl⟩

/-! ## Expressions -/

theorem ofTokens?_tooDeep {tokens : List Token} {left : Nat}
    (h : (readers 0).nested.run (tokens.map (·.toLexeme)) = .error ⟨.tooDeep, left⟩) :
    Expr.ofTokens? tokens = .error ⟨.tooDeep, positionOf tokens left⟩ := by
  rw [readers_zero] at h
  simp only [Expr.ofTokens?, h]

/-- tokens that are an expression in `k` parentheses are read as it exactly when it may stand `k` levels deep, and are
too deep otherwise -/
theorem ofTokens?_enclosed {us : List Token} (h : Derives .expression 0 ls e)
    (hus : us.map (·.toLexeme) = enclosed k ls) :
    Derives .expression k ls e ∧ Expr.ofTokens? us = .ok e ∨
      ¬Derives .expression k ls e ∧ ∃ position, Expr.ofTokens? us = .error ⟨.tooDeep, position⟩ := by
  by_cases hlevel : Derives .expression k ls e
  · left
    refine ⟨hlevel, ofTokens?_of_derives ?_⟩
    rw [hus]
    apply derives_enclosed
    rwa [Nat.zero_add]
  · right
    rw [← Nat.zero_add k] at hlevel
    obtain ⟨left, hrefused⟩ := enclosed_refused h hlevel (ends_nil 6)
    rw [List.append_nil, ← hus] at hrefused
    rw [Nat.zero_add] at hlevel
    exact ⟨hlevel, _, ofTokens?_tooDeep hrefused⟩

/-- **Redundant parentheses are transparent.** Tokens that are an expression, between any number of parentheses, are read
as the very same tree, or refused because they nest too deep; and with one pair less they are read whenever they are. -/
theorem parentheses_transparent {ts : List Token} {e : Expr} (h : Expr.ofTokens? ts = .ok e) (k : Nat) :
    (∀ us : List Token, us.map (·.toLexeme) = enclosed k (ts.map (·.toLexeme)) →
      Expr.ofTokens? us = .ok e ∨
        ∃ f, Expr.ofTokens? us = .error f ∧ f.message = "Expression nesting exceeds maximum depth of 32") ∧
      ∀ us vs : List Token, us.map (·.toLexeme) = enclosed k (ts.map (·.toLexeme)) →
        vs.map (·.toLexeme) = enclosed (k + 1) (ts.map (·.toLexeme)) →
          (∃ e', Expr.ofTokens? vs = .ok e') → Expr.ofTokens? us = .ok e := by
  have hderives := derives_of_ofTokens? h
  constructor
  · intro us hus
    rcases ofTokens?_enclosed hderives hus with ⟨-, hread⟩ | ⟨-, position, hrefused⟩
    · exact .inl hread
    · exact .inr ⟨_, hrefused, rfl⟩
  · intro us vs hus hvs hread
    obtain ⟨e', hread⟩ := hread
    rcases ofTokens?_enclosed hderives hvs with ⟨hdeeper, -⟩ | ⟨-, position, hrefused⟩
    · rcases ofTokens?_enclosed hderives hus with ⟨-, hus⟩ | ⟨hnot, -⟩
      · exact hus
      · exact absurd (hdeeper.expression_above (Nat.le_succ k)) hnot
    · rw [hread] at hrefused
      cases hrefused

/-- a negation, which needs a level of its own: it is read in 29 pairs of parentheses, as it is in 30, and refused in 31 -/
theorem negation_in_parentheses :
    let ts : List Token := [⟨bang, 0, 1⟩, ⟨⟨.identifier, "a"⟩, 1, 2⟩]
    let inside (k : Nat) : List Token := List.replicate k ⟨openParen, 0, 1⟩ ++ ts ++ List.replicate k ⟨closeParen, 2, 3⟩
    let e : Expr := .not (.field ⟨"a", []⟩)
    Expr.ofTokens? ts = .ok e ∧ (∀ k ∈ [29, 30, 31], (inside k).map (·.toLexeme) = enclosed k (ts.map (·.toLexeme))) ∧
      Expr.ofTokens? (inside 30) = .ok e ∧ Expr.ofTokens? (inside 29) = .ok e ∧
      ∃ f, Expr.ofTokens? (inside 31) = .error f ∧ f.message = "Expression nesting exceeds maximum depth of 32" := by
  intro ts inside e
  have h : Expr.ofTokens? ts = .ok e := by decide +kernel
  have hlexemes : ∀ k ∈ [29, 30, 31], (inside k).map (·.toLexeme) = enclosed k (ts.map (·.toLexeme)) := by decide
  have hread : Expr.ofTokens? (inside 30) = .ok e := by decide +kernel
  have hrefused : Expr.ofTokens? (inside 31) = .error ⟨.tooDeep, 1⟩ := by decide +kernel
  refine ⟨h, hlexemes, hread, ?_, ?_⟩
  · exact (parentheses_transparent h 29).2 _ _ (hlexemes 29 (by simp)) (hlexemes 30 (by simp)) ⟨e, hread⟩
  · rcases (parentheses_transparent h 31).1 _ (hlexemes 31 (by simp)) with hok | hdeep
    · rw [hrefused] at hok
      cases hok
    · exact hdeep

end Grammar

end Proviso
