/-
Where refusals stand among the tokens, and that nothing else depends on where tokens stand.

Readers see lexemes only, so the lexemes decide what tokens come to (`verdict`): a tree, or a cause and the number of
lexemes before which it shows. Only then do the places of the tokens count, once: that number becomes a position
(`ofTokens?_eq_verdict`). So tokens with the same lexemes come to the same tree or are refused for the same cause at the
same token (`layout_irrelevant`). `Place tokens i` is the position that index `i` stands for, and every refusal is at the
place of an index, where its cause shows; in a text that is a boundary between characters (`refusals_located`).
-/
import Proviso.Syntax
import Proviso.Proofs.Grammar.Refusal
import Proviso.Proofs.Token.Spans

namespace Proviso

namespace Grammar

open Reading

/-- what lexemes come to, whatever their places: a tree, or a cause and how many lexemes were left where it shows -/
def verdict (ls : List Lexeme) : Except Refusal Expr :=
  match Reading.expression.run ls with
  | .error r => .error r
  | .ok (e, []) => .ok e
  | .ok (_, l :: rest) => refuse (.unexpected l.text) (l :: rest)

theorem ofTokens?_eq_verdict (tokens : List Token) :
    Expr.ofTokens? tokens =
      match verdict (tokens.map (·.toLexeme)) with
      | .ok e => .ok e
      | .error r => .error ⟨r.cause, positionOf tokens r.left⟩ := by
  unfold Expr.ofTokens? verdict
  generalize Reading.expression.run (tokens.map (·.toLexeme)) = outcome
  rcases outcome with r | ⟨e, rest⟩
  · rfl
  · cases rest with
    | nil => rfl
    | cons l rest => rfl

theorem verdict_error {ls : List Lexeme} {r : Refusal} (h : verdict ls = .error r) : PointsInto ls r := by
  have hpoints : Points Reading.expression.run := (level_points depthLimit).1
  unfold verdict at h
  split at h
  · next hrun =>
    obtain rfl := Except.error.inj h
    exact hpoints.error hrun
  · cases h
  · next e l rest hrun =>
    obtain rfl := Except.error.inj h
    exact ⟨l :: rest, hpoints.rest hrun, rfl, l, rfl, rfl⟩

/-! ## Places -/

/-- The position that an index into tokens stands for: where the token of that index starts; after all of them where the
last one has ended; and 0 where there are none. -/
inductive Place (tokens : List Token) : Nat → Nat → Prop where
  | start {i : Nat} {t : Token} (here : tokens[i]? = some t) : Place tokens i t.start
  | stop {t : Token} (last : tokens.getLast? = some t) : Place tokens tokens.length t.stop
  | none (empty : tokens = []) : Place tokens 0 0

theorem place_positionOf (tokens : List Token) {left : Nat} (h : left ≤ tokens.length) :
    Place tokens (tokens.length - left) (positionOf tokens left) := by
  unfold positionOf
  split
  · next t rest hdrop =>
    apply Place.start
    have hfirst : (tokens.drop (tokens.length - left))[0]? = tokens[tokens.length - left]? := List.getElem?_drop
    rw [hdrop] at hfirst
    exact hfirst.symm
  · next hdrop =>
    have hlength : tokens.length - left = tokens.length := by
      have := List.drop_eq_nil_iff.1 hdrop
      omega
    rw [hlength]
    cases hlast : tokens.getLast? with
    | none =>
      obtain rfl := List.getLast?_eq_none_iff.1 hlast
      exact .none rfl
    | some t => exact .stop hlast

/-- a refusal of tokens is at the place of an index, and its cause shows in the lexemes from there on -/
def Located (tokens : List Token) (e : ParseError) : Prop :=
  ∃ i, Place tokens i e.position ∧ e.cause.ShowsBefore ((tokens.drop i).map (·.toLexeme))

/-- the same lexemes come to the same, and are refused at the same index -/
theorem ofTokens?_of_lexemes (ls : List Lexeme) :
    (∃ e, ∀ tokens : List Token, tokens.map (·.toLexeme) = ls → Expr.ofTokens? tokens = .ok e) ∨
      ∃ cause i, cause.ShowsBefore (ls.drop i) ∧ ∀ tokens : List Token, tokens.map (·.toLexeme) = ls →
        ∃ position, Expr.ofTokens? tokens = .error ⟨cause, position⟩ ∧ Place tokens i position := by
  cases hverdict : verdict ls with
  | ok e =>
    left
    refine ⟨e, fun tokens htokens => ?_⟩
    rw [ofTokens?_eq_verdict, htokens, hverdict]
  | error r =>
    right
    obtain ⟨after, ⟨before, hls⟩, hleft, hshows⟩ := verdict_error hverdict
    refine ⟨r.cause, before.length, ?_, fun tokens htokens => ?_⟩
    · rw [← hls, List.drop_left]
      exact hshows
    · have hlength : tokens.length = before.length + after.length :=
        calc tokens.length = (tokens.map (·.toLexeme)).length := (List.length_map _).symm
          _ = (before ++ after).length := by rw [htokens, hls]
          _ = before.length + after.length := List.length_append
      have hwithin : r.left ≤ tokens.length := by omega
      have hindex : tokens.length - r.left = before.length := by omega
      have hplace := place_positionOf tokens hwithin
      rw [hindex] at hplace
      refine ⟨_, ?_, hplace⟩
      rw [ofTokens?_eq_verdict, htokens, hverdict]

/-- **Layout does not matter.** Tokens with the same lexemes, wherever they stand, come to the same tree, or both are
refused with the same message, at the places of the same index. -/
theorem layout_irrelevant {ts us : List Token} (h : ts.map (·.toLexeme) = us.map (·.toLexeme)) :
    (∃ e, Expr.ofTokens? ts = .ok e ∧ Expr.ofTokens? us = .ok e) ∨
      ∃ e f i, Expr.ofTokens? ts = .error e ∧ Expr.ofTokens? us = .error f ∧ e.message = f.message ∧
        Place ts i e.position ∧ Place us i f.position := by
  rcases ofTokens?_of_lexemes (us.map (·.toLexeme)) with hread | hrefused
  · obtain ⟨e, hread⟩ := hread
    exact .inl ⟨e, hread ts h, hread us rfl⟩
  · obtain ⟨cause, i, -, hrefused⟩ := hrefused
    obtain ⟨p, hts, hp⟩ := hrefused ts h
    obtain ⟨q, hus, hq⟩ := hrefused us rfl
    exact .inr ⟨⟨cause, p⟩, ⟨cause, q⟩, i, hts, hus, rfl, hp, hq⟩

theorem located_of_ofTokens? {tokens : List Token} {e : ParseError} (h : Expr.ofTokens? tokens = .error e) :
    Located tokens e := by
  rcases ofTokens?_of_lexemes (tokens.map (·.toLexeme)) with hread | hrefused
  · obtain ⟨e', hread⟩ := hread
    rw [hread tokens rfl] at h
    cases h
  · obtain ⟨cause, i, hshows, hrefused⟩ := hrefused
    obtain ⟨position, herror, hplace⟩ := hrefused tokens rfl
    rw [herror] at h
    obtain rfl := Except.error.inj h
    rw [← List.map_drop] at hshows
    exact ⟨i, hplace, hshows⟩

/-- a bracket without an index, in one row and spread over lines: refused at the closing bracket in both -/
theorem layout_of_missing_index :
    let ts : List Token := [⟨⟨.identifier, "a"⟩, 0, 1⟩, ⟨openBracket, 1, 2⟩, ⟨closeBracket, 2, 3⟩]
    let us : List Token := [⟨⟨.identifier, "a"⟩, 4, 5⟩, ⟨openBracket, 9, 10⟩, ⟨closeBracket, 20, 21⟩]
    ts.map (·.toLexeme) = us.map (·.toLexeme) ∧
      ∃ e f i, Expr.ofTokens? ts = .error e ∧ Expr.ofTokens? us = .error f ∧ e.message = f.message ∧
        Place ts i e.position ∧ Place us i f.position := by
  intro ts us
  have h : ts.map (·.toLexeme) = us.map (·.toLexeme) := rfl
  have hrefused : Expr.ofTokens? ts = .error ⟨.unexpectedInIndex "]", 2⟩ := by decide +kernel
  refine ⟨h, ?_⟩
  rcases layout_irrelevant h with hread | hboth
  · obtain ⟨e, hread, -⟩ := hread
    rw [hrefused] at hread
    cases hread
  · exact hboth

/-- the places of the tokens of a text are boundaries between its characters -/
theorem Place.boundary {text : String} {tokens : List Token} {i position : Nat} (h : Place tokens i position)
    (hfaithful : Token.Faithful text tokens) :
    position ≤ text.utf8ByteSize ∧ String.Pos.Raw.IsValid text ⟨position⟩ := by
  cases h with
  | @start i t here =>
    have hmem := List.mem_of_getElem? here
    have hwithin := hfaithful.within t hmem
    exact ⟨by omega, (hfaithful.boundaries t hmem).1⟩
  | @stop t last =>
    have hmem := List.mem_of_getLast? last
    exact ⟨(hfaithful.within t hmem).2, (hfaithful.boundaries t hmem).2⟩
  | none =>
    refine ⟨Nat.zero_le _, ?_⟩
    exact String.Pos.Raw.isValid_zero

/-- **Refusals are located.** Whenever tokens are refused, the position of the refusal is where one of them starts, or where
the last one has ended, or 0 where there are none; and what the refusal says is so of the tokens from there on. When the
tokens are those of a text, the position is a boundary between its characters. -/
theorem refusals_located :
    (∀ (tokens : List Token) (e : ParseError), Expr.ofTokens? tokens = .error e → Located tokens e) ∧
      ∀ (text : String) (e : ParseError), Expr.ofText? text = .error (.parse e) →
        ∃ tokens, Token.scan text = .ok tokens ∧ Located tokens e ∧ e.position ≤ text.utf8ByteSize ∧
          String.Pos.Raw.IsValid text ⟨e.position⟩ := by
  refine ⟨fun tokens e h => located_of_ofTokens? h, ?_⟩
  intro text e h
  unfold Expr.ofText? at h
  split at h
  · cases h
  · next tokens hscan =>
    split at h
    · next hrefused =>
      obtain rfl := SyntaxError.parse.inj (Except.error.inj h)
      obtain ⟨i, hplace, hshows⟩ := located_of_ofTokens? hrefused
      have hboundary := hplace.boundary (Token.spans_faithful hscan)
      exact ⟨tokens, hscan, ⟨i, hplace, hshows⟩, hboundary⟩
    · cases h

/-- a number token that no text has, and a call that does not close after a string with a character of two bytes -/
theorem refusals_of_bad_number_and_open_call :
    let tokens : List Token := [⟨⟨.number, "abc"⟩, 7, 9⟩]
    let text := "len('é', b"
    (Expr.ofTokens? tokens = .error ⟨.invalidNumber "abc", 7⟩ ∧ Located tokens ⟨.invalidNumber "abc", 7⟩) ∧
      Expr.ofText? text = .error (.parse ⟨.expectedBeforeEnd ")", 11⟩) ∧
      ∃ tokens, Token.scan text = .ok tokens ∧ Located tokens ⟨.expectedBeforeEnd ")", 11⟩ ∧ 11 ≤ text.utf8ByteSize ∧
        String.Pos.Raw.IsValid text ⟨11⟩ := by
  intro tokens text
  have hnumber : Expr.ofTokens? tokens = .error ⟨.invalidNumber "abc", 7⟩ := by decide +kernel
  have hcall : Expr.ofText? text = .error (.parse ⟨.expectedBeforeEnd ")", 11⟩) := by decide +kernel
  exact ⟨⟨hnumber, refusals_located.1 _ _ hnumber⟩, hcall, refusals_located.2 _ _ hcall⟩

end Grammar

end Proviso
