/-
Phrases in a text.

A text in which scanning finds the lexemes of an expression is read into the tree of that expression
(`ofText?_of_reaches`). `TermText text e` says that the text is written for the term `e` and ends before anything that does
not go on a word. Such a text alone is read as the term (`TermText.ofText?_eq`), and two of them with a comparison between
them, with blanks or without, as the comparison (`ofText?_comparison`). The numerals are such texts (`termText_numeral`).
-/
import Proviso.Syntax
import Proviso.Proofs.Decimal.Numeral
import Proviso.Proofs.Grammar.Complete
import Proviso.Proofs.Token.Spacing

namespace Proviso

namespace Grammar

open Token Reading Text

variable {ls xs ys : List Lexeme} {e a b : Expr} {d : Nat}

/-- a text is read into the tree of the expression that its lexemes make up -/
theorem ofText?_of_reaches {text : String} (hscan : Reaches text.toList ls []) (h : Derives .expression 0 ls e) :
    Expr.ofText? text = .ok e := by
  obtain ⟨before, hsplit, hpositions⟩ := scanFrom_of_reaches hscan
  rw [List.append_nil] at hsplit
  obtain rfl := hsplit
  obtain ⟨tokens, rfl, htokens, -⟩ := hpositions 0
  rw [Expr.ofText?, scan, htokens]
  simp only [ofTokens?_of_derives h]

theorem Derives.relation_of_term (h : Derives .term d ls e) : Derives .relation d ls e :=
  .relation (.firstRelation (.positive h))

theorem Derives.conjunction_of_equality (h : Derives .equality d ls e) : Derives .conjunction d ls e := by
  have hchain : Derives .conjunction d (joined (operator .and) [(ls, e)]) (.balanced .and (trees [(ls, e)])) :=
    .conjunction [(ls, e)] (by simp) (by simpa using h)
  rwa [joined_singleton, trees_cons, trees_nil, Expr.balanced] at hchain

theorem Derives.disjunction_of_conjunction (h : Derives .conjunction d ls e) : Derives .disjunction d ls e := by
  have hchain : Derives .disjunction d (joined (operator .or) [(ls, e)]) (.balanced .or (trees [(ls, e)])) :=
    .disjunction [(ls, e)] (by simp) (by simpa using h)
  rwa [joined_singleton, trees_cons, trees_nil, Expr.balanced] at hchain

/-- a chain of equalities is an expression one level higher -/
theorem Derives.expression_of_equality (level : d < depthLimit) (h : Derives .equality (d + 1) ls e) :
    Derives .expression d ls e :=
  .expression level (.consequence h.conjunction_of_equality.disjunction_of_conjunction)

theorem Derives.expression_of_term (level : d < depthLimit) (h : Derives .term (d + 1) ls e) :
    Derives .expression d ls e :=
  .expression_of_equality level (.equality (.firstEquality h.relation_of_term))

/-! ## Comparisons -/

/-- the operators with which two operands are compared -/
def Compares (op : BinaryOp) : Prop := (op = .eq ∨ op = .ne) ∨ (op = .lt ∨ op = .le ∨ op = .gt ∨ op = .ge)

variable {op : BinaryOp}

/-- two terms with a comparison between them are an expression -/
theorem derives_comparison (hop : Compares op) (hx : ∀ d, Derives .term d xs a) (hy : ∀ d, Derives .term d ys b) :
    Derives .expression 0 (xs ++ operator op :: ys) (.binary op a b) := by
  have hlevel : 1 + (0 + 1) ≤ depthLimit := by decide
  apply Derives.expression_of_equality (by decide)
  rcases hop with hequates | hrelates
  · exact .equality (.nextEquality (.firstEquality (hx 1).relation_of_term) hequates hlevel (hy 2).relation_of_term)
  · have hchain : Derives (.relations 1) 1 (xs ++ operator op :: ys) (.binary op a b) :=
      .nextRelation (.firstRelation (.positive (hx 1))) hrelates hlevel (.positive (hy 2))
    exact .equality (.firstEquality (.relation hchain))

theorem Compares.writable (hop : Compares op) : (operator op).Writable := by
  rcases hop with (rfl | rfl) | (rfl | rfl | rfl | rfl) <;> exact .symbol _ (by decide)

/-- words and numbers end before a comparison -/
theorem Compares.delimited (hop : Compares op) (rest : List Char) : Delimited ((operator op).written ++ rest) := by
  rcases hop with (rfl | rfl) | (rfl | rfl | rfl | rfl) <;> exact delimited_cons.2 (by decide)

/-! ## Texts of terms -/

/-- The text is written for a term that may stand at any level: before anything that does not go on a word its lexemes are
those of the term. It does not start as the second half of `<=` does. -/
structure TermText (text : String) (e : Expr) : Prop where
  lexemes : ∃ ls, (∀ d, Derives .term d ls e) ∧ ∀ rest, Delimited rest → Reaches (text.toList ++ rest) ls rest
  start : text.toList.head? ≠ some '='

theorem TermText.ofText?_eq {text : String} (h : TermText text e) : Expr.ofText? text = .ok e := by
  obtain ⟨⟨ls, hterm, hreaches⟩, -⟩ := h
  have hscan := hreaches [] (by simp [Delimited])
  rw [List.append_nil] at hscan
  exact ofText?_of_reaches hscan (.expression_of_term (by decide) (hterm 1))

/-- **Terms with a comparison between them are read as the comparison,** with or without blanks on its sides. -/
theorem ofText?_comparison (hop : Compares op) {x y : String} (hx : TermText x a) (hy : TermText y b) {gap gap' : String}
    (hgap : ∀ c ∈ gap.toList, isBlank c = true) (hgap' : ∀ c ∈ gap'.toList, isBlank c = true) :
    Expr.ofText? (x ++ gap ++ op.symbol ++ gap' ++ y) = .ok (.binary op a b) := by
  obtain ⟨⟨xs, hxs, hreachx⟩, -⟩ := hx
  obtain ⟨⟨ys, hys, hreachy⟩, hstart⟩ := hy
  have hright : Reaches (gap'.toList ++ y.toList) ys [] := by
    have h := hreachy [] (by simp [Delimited])
    rw [List.append_nil] at h
    exact h.blanks hgap'
  have hends : (operator op).EndsBefore (gap'.toList ++ y.toList) := by
    intro _ hequals
    cases hcs : gap'.toList with
    | nil =>
      rw [hcs, List.nil_append] at hequals
      exact hstart hequals
    | cons c cs =>
      have hc := hgap' c (by rw [hcs]; exact List.mem_cons_self)
      rw [hcs] at hequals
      obtain rfl : c = '=' := Option.some.inj hequals
      exact absurd hc (by decide)
  have hfrom := (reaches_written hop.writable hends).trans hright
  have hleft := hreachx _ (.after_blanks hgap (hop.delimited (gap'.toList ++ y.toList)))
  have htext : (x ++ gap ++ op.symbol ++ gap' ++ y).toList =
      x.toList ++ (gap.toList ++ ((operator op).written ++ (gap'.toList ++ y.toList))) := by
    simp [operator, Lexeme.written]
  refine ofText?_of_reaches ?_ (derives_comparison hop hxs hys)
  rw [htext]
  exact hleft.trans (hfrom.blanks hgap)

/-! ## Numerals -/

theorem numeral_writable {m : Nat} {ds : List Char} (h : Decimal.Numeral m ds) :
    Lexeme.Writable ⟨.number, String.ofList ds⟩ := by
  have hdigits := h.isDigit
  obtain ⟨c, cs, rfl⟩ := h.exists_cons
  exact .whole c cs hdigits

/-- digits without a dot are read as the integer that they denote -/
theorem number?_of_numeral {m : Nat} {ds : List Char} (h : Decimal.Numeral m ds) :
    number? (String.ofList ds) = some (.int m) := by
  have hdot : ds.contains '.' = false := by
    rw [List.contains_eq_mem, decide_eq_false_iff_not]
    intro hmem
    exact absurd (h.isDigit '.' hmem) (by decide)
  rw [number?, String.toList_ofList, hdot, h.integer?_eq]
  rfl

/-- a numeral is a term, the literal of its number -/
theorem derives_numeral {m : Nat} {ds : List Char} (h : Decimal.Numeral m ds) (d : Nat) :
    Derives .term d [⟨.number, String.ofList ds⟩] (.literal (.int m)) :=
  .term (.bare (.number (number?_of_numeral h)))

/-- a numeral is a term wherever it ends -/
theorem termText_numeral {m : Nat} {digits : String} (h : Decimal.Numeral m digits.toList) :
    TermText digits (.literal (.int m)) where
  lexemes := by
    refine ⟨[⟨.number, digits⟩], fun d => ?_, fun rest hrest => ?_⟩
    · have hterm := derives_numeral h d
      rwa [String.ofList_toList] at hterm
    · have hwritable := numeral_writable h
      rw [String.ofList_toList] at hwritable
      exact reaches_written hwritable (Lexeme.endsBefore_of_delimited (.inl rfl) hrest)
  start := by
    intro hequals
    exact absurd (h.isDigit '=' (List.mem_of_mem_head? hequals)) (by decide)

end Grammar

end Proviso
