/-
Progress and the counter of the parser's depth.

Every function of the parser that reads a phrase ends, from any place and any depth up to the limit. On the way the counter
stays between where it was and the limit, so it is never lowered below where it was, and the calls that are open at once are
no more than eleven for each level that is left and ten besides. When the function succeeds it has passed a token at least and
none that is not there, and the counter is where it was (`parts_progress`). The parser that is made of these functions gives
what the readers give (`parse_eq_ofTokens?`).
-/
import Proviso.Proofs.Counter.Levels

namespace Proviso.Counter

open Grammar Reading

/-- the phrases that have a function of their own -/
inductive Part where
  | expression | implication | disjunction | conjunction | equality | relation | unary | suffixed | primary

variable {tokens : Source} {d : Nat} {ls rest : List Lexeme} {e : Expr}

/-- the function that reads a phrase -/
def Part.parse (tokens : Source) : Part → Nat → Machine Expr
  | .expression => tokens.expression
  | .implication => tokens.implication
  | .disjunction => tokens.joined .or
  | .conjunction => tokens.joined .and
  | .equality => tokens.compared .equality
  | .relation => tokens.compared .relation
  | .unary => tokens.unary
  | .suffixed => tokens.suffixed
  | .primary => tokens.primary

/-- the reader of a phrase that stands `d` levels deep -/
def Part.read : Part → Nat → List Lexeme → Outcome Expr
  | .expression, d => (readers d).nested.run
  | .implication, d => (implications d).run
  | .disjunction, d => (disjunctions d).run
  | .conjunction, d => (conjunctions d).run
  | .equality, d => (Grammar.equality d).run
  | .relation, d => (Grammar.relation d).run
  | .unary, d => (readers d).unary.run
  | .suffixed, d => postfixed (depthLimit - d) (readers d).nested
  | .primary, d => Reading.primary (readers d).nested

/-- how many calls are open at once from a phrase to an expression inside it -/
def Part.height : Part → Nat
  | .expression => 0
  | .implication => 10
  | .disjunction => 9
  | .conjunction => 8
  | .equality => 7
  | .relation => 6
  | .unary => 5
  | .suffixed => 4
  | .primary => 3

theorem Part.keeps (part : Part) (tokens : Source) (d : Nat) :
    Keeps tokens (span d + part.height) (part.parse tokens) d (part.read d) := by
  have h := kept tokens d
  cases part with
  | expression => exact h.expression
  | implication => exact h.implication
  | disjunction => exact h.joined .or
  | conjunction => exact h.joined .and
  | equality => exact h.compared .equality
  | relation => exact h.compared .relation
  | unary => exact h.unary
  | suffixed => exact h.suffixed
  | primary => exact h.primary

/-- a phrase takes a lexeme at least -/
theorem Part.shortens (part : Part) (h : part.read d ls = .ok (e, rest)) : rest.length < ls.length := by
  cases part with
  | suffixed => exact postfixed_shortens _ _ _ _ _ h
  | primary => exact primary_shortens _ _ _ _ h
  | expression | implication | disjunction | conjunction | equality | relation | unary =>
    exact Reader.shortens _ _ _ _ h

/-- **Every function of the parser makes progress and keeps the counter.** From any place in any list of tokens, at any depth
up to the limit, it ends, with what the reader of the phrase gives. When it succeeds, it has passed a token at least and stands
inside the list or at its end, and the counter is where it was. At every moment on the way the counter is between where it was
and the limit, and the number of open calls has a bound that does not depend on the tokens. -/
theorem parts_progress (tokens : List Token) (part : Part) (start depth frames : Nat) (hdepth : depth ≤ depthLimit) :
    ∃ result after, (part.parse tokens frames).run.run ⟨start, depth, []⟩ = some (result, after) ∧
      (match part.read depth ((tokens.drop start).map (·.toLexeme)) with
        | .ok (e, rest) => result = .ok e ∧ (tokens.drop after.pos).map (·.toLexeme) = rest
        | .error r => result = .error ⟨r.cause, positionOf tokens r.left⟩) ∧
      (∀ e, result = .ok e → start < after.pos ∧ after.pos ≤ tokens.length ∧ after.depth = depth) ∧
      ∀ x ∈ after.moments, depth ≤ x.depth ∧ x.depth ≤ depthLimit ∧
        x.frames ≤ frames + part.height + 11 * (depthLimit - depth) := by
  have hat : At tokens depth ((tokens.drop start).map (·.toLexeme)) depth ⟨start, depth, []⟩ :=
    ⟨rfl, rfl, Nat.le_refl depth, hdepth⟩
  obtain ⟨result, after, hrun, hleads, hmatches⟩ := part.keeps tokens depth hat (Nat.le_refl (frames + _))
  obtain ⟨hinside, passed, hpassed, hwithin⟩ := hleads
  refine ⟨result, after, hrun, ?_, fun e he => ?_, fun x hx => ?_⟩
  · cases result with
    | ok e =>
      obtain ⟨rest, hread, hat⟩ := hmatches
      rw [hread]
      exact ⟨rfl, hat.left⟩
    | error e =>
      obtain ⟨⟨r, hread, he⟩, -⟩ := hmatches
      rw [hread, he]
      rfl
  · subst he
    obtain ⟨rest, hread, hat⟩ := hmatches
    have hshorter := part.shortens hread
    rw [← hat.left, List.length_map, List.length_map, List.length_drop, List.length_drop] at hshorter
    dsimp only at hinside
    exact ⟨by omega, by omega, hat.counter⟩
  · rw [hpassed, List.append_nil] at hx
    obtain ⟨hlow, hhigh, hframes⟩ := hwithin x hx
    exact ⟨hlow, hhigh, by unfold span at hframes; omega⟩

/-- on the last level but one, `a.length` is read, and the counter is set back to that level -/
theorem suffixed_above_last_level :
    let tokens : Source := [⟨⟨.identifier, "a"⟩, 0, 1⟩, ⟨dot, 1, 2⟩, ⟨⟨.identifier, "length"⟩, 2, 8⟩]
    31 ≤ depthLimit ∧
      ∃ after, (tokens.suffixed 0).run.run ⟨0, 31, []⟩ = some (.ok (.length (.field ⟨"a", []⟩)), after) ∧
        after.pos = 3 ∧ after.depth = 31 ∧ ∀ x ∈ after.moments, 31 ≤ x.depth ∧ x.depth ≤ 32 ∧ x.frames ≤ 15 := by
  intro tokens
  have hread : Part.suffixed.read 31 (tokens.map (·.toLexeme)) = .ok (.length (.field ⟨"a", []⟩), []) := by rfl
  have hdepth : 31 ≤ depthLimit := by decide
  obtain ⟨result, after, hrun, hmatches, hok, hmoments⟩ := parts_progress tokens .suffixed 0 31 0 hdepth
  rw [List.drop_zero, hread] at hmatches
  obtain ⟨rfl, hrest⟩ := hmatches
  obtain ⟨-, hinside, hdepth'⟩ := hok _ rfl
  have hend : after.pos = 3 := by
    have hpassed := List.drop_eq_nil_iff.1 (List.map_eq_nil_iff.1 hrest)
    exact Nat.le_antisymm hinside hpassed
  exact ⟨hdepth, after, hrun, hend, hdepth', hmoments⟩

/-! ## The whole parser -/

/-- the expression that all the tokens make up, read from the first one with the counter at zero -/
def parse (tokens : Source) : Machine Expr := do
  if tokens.isEmpty then throw ⟨.unexpectedEnd, 0⟩
  let e ← tokens.expression 0
  match ← peek tokens with
  | some t => throw ⟨.unexpected t.text, t.start⟩
  | none => return e

theorem implications_run_nil (d : Nat) : (implications d).run [] = .error ⟨.unexpectedEnd, 0⟩ := by
  have hunary : (readers d).unary.run [] = .error ⟨.unexpectedEnd, 0⟩ := by
    rw [readers_unary]
    rfl
  have hrelation : (Grammar.relation d).run [] = .error ⟨.unexpectedEnd, 0⟩ := by
    simp only [Grammar.relation, comparison, hunary]
  have hequality : (Grammar.equality d).run [] = .error ⟨.unexpectedEnd, 0⟩ := by
    simp only [Grammar.equality, comparison, hrelation]
  have hconjunctions : (conjunctions d).run [] = .error ⟨.unexpectedEnd, 0⟩ := by
    simp only [conjunctions, chain, separated_of_error hequality]
  have hdisjunctions : (disjunctions d).run [] = .error ⟨.unexpectedEnd, 0⟩ := by
    simp only [disjunctions, chain, separated_of_error hconjunctions]
  rw [implications_run, hdisjunctions]

/-- what the readers make of all the lexemes -/
def whole (ls : List Lexeme) : Outcome Expr :=
  match Reading.expression.run ls with
  | .error r => .error r
  | .ok (e, []) => .ok (e, [])
  | .ok (_, l :: rest) => .error ⟨.unexpected l.text, rest.length + 1⟩

theorem ofTokens?_eq_whole (tokens : List Token) : Expr.ofTokens? tokens =
    match whole (tokens.map (·.toLexeme)) with
    | .error r => .error (placed tokens r)
    | .ok (e, _) => .ok e := by
  rw [Expr.ofTokens?, whole]
  generalize Reading.expression.run (tokens.map (·.toLexeme)) = o
  rcases o with r | ⟨e, _ | ⟨l, rest⟩⟩ <;> rfl

theorem follows_parse {c : Cursor} {top : Nat} (hat : At tokens 0 ls 0 c) (htop : span 0 ≤ top) (hne : tokens ≠ []) :
    Follows tokens 0 top (parse tokens) c (whole ls) 0 := by
  have hempty : tokens.isEmpty = false := by simpa using hne
  have hexpression := (kept tokens 0).expression hat (show 0 + span 0 ≤ top by omega)
  rw [readers_zero] at hexpression
  rw [parse, hempty]
  unfold whole
  change Follows tokens 0 top (tokens.expression 0 >>= _) c _ 0
  refine hexpression.bind (fun e rest c he hat => ?_) fun r he => ?_
  · rw [he]
    refine hat.peek (fun hnil => ?_) fun t more hcons hplace => ?_
    · subst hnil
      exact Follows.pure hat
    · subst hcons
      exact Follows.throw hat (by rw [placed, hplace]; rfl)
  · rw [he]

/-- **The parser that counts gives what the readers give.** -/
theorem parse_eq_ofTokens? (tokens : List Token) :
    ∃ after, (parse tokens).run.run ⟨0, 0, []⟩ = some (Expr.ofTokens? tokens, after) := by
  cases tokens with
  | nil =>
    refine ⟨⟨0, 0, []⟩, ?_⟩
    have hnone : Reading.expression.run [] = .error ⟨.unexpectedEnd, 0⟩ := implications_run_nil 1
    rw [Expr.ofTokens?, List.map_nil, hnone]
    rfl
  | cons t rest =>
    have hat : At (t :: rest) 0 ((t :: rest).map (·.toLexeme)) 0 ⟨0, 0, []⟩ := ⟨rfl, rfl, Nat.le_refl 0, by decide⟩
    obtain ⟨result, after, hrun, -, hmatches⟩ := follows_parse hat (Nat.le_refl _) (by simp)
    refine ⟨after, ?_⟩
    rw [hrun, ofTokens?_eq_whole]
    cases result with
    | ok e =>
      obtain ⟨out, hwhole, -⟩ := hmatches
      rw [hwhole]
    | error e =>
      obtain ⟨⟨r, hwhole, rfl⟩, -⟩ := hmatches
      rw [hwhole]

end Proviso.Counter
