/-
Every phrase is read: before lexemes that end it, the reader of its category takes all of it and gives its tree.

What ends a phrase is a matter of how loosely lexemes bind. `looseness l` ranks the lexemes that can make what stands
before them longer, and a phrase of a category ends before `rest` when the first lexeme there is looser than the
category (`Ends`). A chain that is not over yet goes on with more of itself (`resume`), so the rules that nest to the
left can be followed one after the other (`Derives.read`). `ofTokens?_eq_ok_iff_derives` puts this together with
soundness.
-/
import Proviso.Proofs.Grammar.Sound

namespace Proviso

namespace Grammar

open Reading

/-! ## What ends a phrase -/

/-- how loosely a lexeme binds to what stands before it; lexemes that never do are the loosest -/
def looseness (l : Lexeme) : Nat :=
  if l = openParen then 0
  else if l = dot ∨ l = openBracket then 1
  else if (relation? l).isSome then 2
  else if (equality? l).isSome then 3
  else if l = Reading.conjunction then 4
  else if l = Reading.disjunction then 5
  else if l = arrow then 6
  else 7

/-- the loosest lexemes that can make a phrase of a category longer -/
def Category.looseness : Category → Nat
  | .primary | .suffixes _ => 0
  | .term | .unary | .relations _ => 1
  | .relation | .equalities _ => 2
  | .equality => 3
  | .conjunction => 4
  | .disjunction => 5
  | .implication | .expression => 6

/-- lexemes before which a phrase of looseness `k` ends -/
def Ends (k : Nat) (rest : List Lexeme) : Prop := ∀ l ∈ rest.head?, k < looseness l

theorem ends_nil (k : Nat) : Ends k [] := by simp [Ends]

theorem ends_cons {k : Nat} {l : Lexeme} {rest : List Lexeme} : Ends k (l :: rest) ↔ k < looseness l := by
  simp [Ends]

theorem Ends.mono {j k : Nat} {rest : List Lexeme} (h : Ends k rest) (hj : j ≤ k) : Ends j rest :=
  fun l hl => Nat.lt_of_le_of_lt hj (h l hl)

/-- what ends a phrase is none of the lexemes that make it longer -/
theorem Ends.head?_ne {k : Nat} {rest : List Lexeme} (h : Ends k rest) {m : Lexeme} (hm : looseness m ≤ k) :
    rest.head? ≠ some m := by
  intro he
  have := h m he
  omega

theorem looseness_relation {l : Lexeme} {op : BinaryOp} (h : relation? l = some op) : looseness l = 2 := by
  obtain ⟨rfl, rfl | rfl | rfl | rfl⟩ := relation?_eq_some.1 h <;> decide

theorem looseness_equality {l : Lexeme} {op : BinaryOp} (h : equality? l = some op) : looseness l = 3 := by
  obtain ⟨rfl, rfl | rfl⟩ := equality?_eq_some.1 h <;> decide

theorem ends_relation {l : Lexeme} {op : BinaryOp} (h : relation? l = some op) (rest : List Lexeme) :
    Ends 1 (l :: rest) := by
  rw [ends_cons, looseness_relation h]
  decide

theorem ends_equality {l : Lexeme} {op : BinaryOp} (h : equality? l = some op) (rest : List Lexeme) :
    Ends 2 (l :: rest) := by
  rw [ends_cons, looseness_equality h]
  decide

theorem ends_dot (rest : List Lexeme) : Ends 0 (dot :: rest) := by
  rw [ends_cons]
  decide

theorem ends_openBracket (rest : List Lexeme) : Ends 0 (openBracket :: rest) := by
  rw [ends_cons]
  decide

theorem ends_closeParen (rest : List Lexeme) : Ends 6 (closeParen :: rest) := by
  rw [ends_cons]
  decide

theorem Ends.relation?_eq_none {k : Nat} {rest : List Lexeme} (h : Ends k rest) (hk : 2 ≤ k) :
    ∀ l ∈ rest.head?, relation? l = none := by
  intro l hl
  cases hop : relation? l with
  | none => rfl
  | some op =>
    have := h l hl
    rw [looseness_relation hop] at this
    omega

theorem Ends.equality?_eq_none {k : Nat} {rest : List Lexeme} (h : Ends k rest) (hk : 3 ≤ k) :
    ∀ l ∈ rest.head?, equality? l = none := by
  intro l hl
  cases hop : equality? l with
  | none => rfl
  | some op =>
    have := h l hl
    rw [looseness_equality hop] at this
    omega

/-! ## Lists and chains -/

theorem separated_complete {k : Nat} {item : Reader Expr} {separator : Lexeme} (hk : k < looseness separator)
    {rest : List Lexeme} (hr : Ends k rest) (hs : rest.head? ≠ some separator) {parts : List Part}
    (some_part : parts ≠ [])
    (hi : ∀ p ∈ parts, ∀ rest, Ends k rest → item.run (p.1 ++ rest) = .ok (p.2, rest)) :
    separated item separator (joined separator parts ++ rest) = .ok (trees parts, rest) := by
  induction parts with
  | nil => exact absurd rfl some_part
  | cons p parts ih =>
    cases parts with
    | nil =>
      rw [joined_singleton]
      exact separated_of_last (hi p List.mem_cons_self _ hr) hs
    | cons q parts =>
      rw [joined_cons_cons, List.append_assoc, List.cons_append]
      exact separated_of_more (hi p List.mem_cons_self _ (ends_cons.2 hk))
        (ih (by simp) fun p hp => hi p (List.mem_cons_of_mem _ hp))

theorem chain_complete {k : Nat} {operand : Reader Expr} (op : BinaryOp) {l : Lexeme} (hk : k < looseness l)
    {rest : List Lexeme} (hr : Ends (looseness l) rest) {parts : List Part} (some_part : parts ≠ [])
    (ho : ∀ p ∈ parts, ∀ rest, Ends k rest → operand.run (p.1 ++ rest) = .ok (p.2, rest)) :
    (chain op l operand).run (joined l parts ++ rest) = .ok (.balanced op (trees parts), rest) := by
  have := separated_complete hk (hr.mono (Nat.le_of_lt hk)) (hr.head?_ne (Nat.le_refl _)) some_part ho
  simp only [chain, this]

/-- a list that the grammar derives is read up to its closing lexeme, also when it is empty -/
theorem listUntil_complete {k : Nat} {item : Reader Expr} {close : Lexeme} (hc : k < looseness close)
    (hk : k < looseness comma) (hne : close ≠ comma) {parts : List Part}
    (hi : ∀ p ∈ parts, ∀ rest, Ends k rest → item.run (p.1 ++ rest) = .ok (p.2, rest))
    (hopen : ∀ p ∈ parts, ∃ l more, p.1 = l :: more ∧ l ≠ close) (rest : List Lexeme) :
    listUntil close item (joined comma parts ++ close :: rest) = .ok (trees parts, rest) := by
  rw [listUntil_eq_ok]
  cases parts with
  | nil => exact .inl ⟨rfl, rfl⟩
  | cons p parts =>
    refine .inr ⟨?_, separated_complete hk (ends_cons.2 hc) (by simpa using hne) (by simp) hi⟩
    obtain ⟨more, hm⟩ := joined_cons_eq comma p parts
    obtain ⟨l, tail, hl, hlc⟩ := hopen p List.mem_cons_self
    simpa [hm, hl] using hlc

theorem comparisons_of_ends {operator? : Lexeme → Option BinaryOp} {rest : List Lexeme}
    (h : ∀ l ∈ rest.head?, operator? l = none) (operands : List (Reader Expr)) (e : Expr) :
    comparisons operator? operands e rest = .ok (e, rest) := by
  cases rest with
  | nil => cases operands <;> simp [comparisons]
  | cons l rest => cases operands <;> simp [comparisons, h l rfl]

theorem comparison_first {operator? : Lexeme → Option BinaryOp} {operand : Reader Expr} {deeper : List (Reader Expr)}
    {ls rest : List Lexeme} {e : Expr} (h : operand.run ls = .ok (e, rest)) :
    (comparison operator? operand deeper).run ls = comparisons operator? deeper e rest := by
  simp [comparison, h]

theorem comparisons_cons {operator? : Lexeme → Option BinaryOp} {l : Lexeme} {op : BinaryOp} {r : Reader Expr}
    {rs : List (Reader Expr)} {ls rest : List Lexeme} {a b : Expr} (hop : operator? l = some op)
    (hr : r.run ls = .ok (b, rest)) :
    comparisons operator? (r :: rs) a (l :: ls) = comparisons operator? rs (.binary op a b) rest := by
  simp [comparisons, hop, hr]

/-! ## Suffixes -/

/-- what is left of a term after `e` has been read -/
def suffixed (levels : Nat) (nested : Reader Expr) (e : Expr) (rest : List Lexeme) : Outcome Expr :=
  match e with
  | .field p => pathSuffixes levels nested p rest
  | e => valueSuffixes levels e rest

theorem postfixed_eq {levels : Nat} {nested : Reader Expr} {ls rest : List Lexeme} {e : Expr}
    (h : primary nested ls = .ok (e, rest)) : postfixed levels nested ls = suffixed levels nested e rest := by
  cases e <;> simp [postfixed, suffixed, h]

theorem pathSuffixes_of_ends {rest : List Lexeme} (h : Ends 1 rest) (levels : Nat) (nested : Reader Expr) (p : Path) :
    pathSuffixes levels nested p rest = .ok (.field p, rest) := by
  rw [pathSuffixes.eq_def]
  cases rest with
  | nil => rfl
  | cons l rest =>
    have hdot : l ≠ dot := by simpa using h.head?_ne (m := dot) (by decide)
    have hopen : l ≠ openBracket := by simpa using h.head?_ne (m := openBracket) (by decide)
    simp [hdot, hopen]

theorem valueSuffixes_of_ends {rest : List Lexeme} (h : Ends 1 rest) (levels : Nat) (e : Expr) :
    valueSuffixes levels e rest = .ok (e, rest) := by
  rw [valueSuffixes.eq_def]
  cases rest with
  | nil => rfl
  | cons l rest =>
    have hdot : l ≠ dot := by simpa using h.head?_ne (m := dot) (by decide)
    have hopen : l ≠ openBracket := by simpa using h.head?_ne (m := openBracket) (by decide)
    simp [hdot, hopen]

theorem suffixed_of_ends {rest : List Lexeme} (h : Ends 1 rest) (levels : Nat) (nested : Reader Expr) (e : Expr) :
    suffixed levels nested e rest = .ok (e, rest) := by
  unfold suffixed
  split
  · exact pathSuffixes_of_ends h levels nested _
  · exact valueSuffixes_of_ends h levels _

theorem suffixed_length (levels : Nat) (nested : Reader Expr) (e : Expr) (rest : List Lexeme) :
    suffixed (levels + 1) nested e (dot :: ⟨.identifier, "length"⟩ :: rest) =
      suffixed levels nested (.length e) rest := by
  unfold suffixed
  split
  · rw [pathSuffixes.eq_def]
    simp
  · rw [valueSuffixes.eq_def]
    simp

section

variable {levels : Nat} {nested : Reader Expr} {p : Path}

theorem suffixed_key {name : String} (hn : name ≠ "length") {rest : List Lexeme} (hr : rest.head? ≠ some openParen) :
    suffixed levels nested (.field p) (dot :: ⟨.identifier, name⟩ :: rest) =
      suffixed levels nested (.field (p.push (.key name))) rest := by
  simp only [suffixed]
  rw [pathSuffixes.eq_def]
  cases rest with
  | nil => simp [hn, pathSuffixes]
  | cons l rest =>
    have hl : l ≠ openParen := by simpa using hr
    simp [hn, hl]

theorem suffixed_segment {l : Lexeme} {s : Segment} (hs : segment l = .ok s) (rest : List Lexeme) :
    suffixed levels nested (.field p) (openBracket :: l :: closeBracket :: rest) =
      suffixed levels nested (.field (p.push s)) rest := by
  have hne : openBracket ≠ dot := by decide
  simp only [suffixed]
  rw [pathSuffixes.eq_def]
  simp [hs, hne]

theorem suffixed_every {param : String} {ys rest : List Lexeme} {e : Expr}
    (hb : nested.run (ys ++ closeParen :: rest) = .ok (e, closeParen :: rest)) :
    suffixed levels nested (.field p)
        (dot :: ⟨.identifier, "every"⟩ :: openParen :: ⟨.identifier, param⟩ :: arrow :: (ys ++ closeParen :: rest)) =
      suffixed levels nested (.every p param e) rest := by
  simp only [suffixed]
  rw [pathSuffixes.eq_def]
  simp [lambda, expect, hb]

end

/-! ## Phrases -/

/-- the reader of a category at a level -/
def reader : Category → Nat → List Lexeme → Outcome Expr
  | .expression, d => (readers d).nested.run
  | .implication, d => (implications d).run
  | .disjunction, d => (disjunctions d).run
  | .conjunction, d => (conjunctions d).run
  | .equality, d | .equalities _, d => (equality d).run
  | .relation, d | .relations _, d => (relation d).run
  | .unary, d => (readers d).unary.run
  | .term, d | .suffixes _, d => postfixed (depthLimit - d) (readers d).nested
  | .primary, d => primary (readers d).nested

/-- what a reader does when it has read `e` and stands before `rest`: a chain looks for more of it, and anything else is
done -/
def resume : Category → Nat → Expr → List Lexeme → Outcome Expr
  | .equalities i, d, e, rest => comparisons equality? (relations (readers (d + i)).deeper) e rest
  | .relations i, d, e, rest => comparisons relation? (readers (d + i)).deeper e rest
  | .suffixes j, d, e, rest => suffixed (depthLimit - (d + j)) (readers d).nested e rest
  | _, _, e, rest => .ok (e, rest)

theorem word?_name (f : Builtin) : word? f.name = none := by cases f <;> decide

section

variable {nested : Reader Expr}

theorem primary_field {name : String} (free : word? name = none) {rest : List Lexeme}
    (hr : rest.head? ≠ some openParen) :
    primary nested (⟨.identifier, name⟩ :: rest) = .ok (.field ⟨name, []⟩, rest) := by
  cases rest with
  | nil => simp [primary, named, free]
  | cons l rest =>
    have hl : l ≠ openParen := by simpa using hr
    simp [primary, named, free, hl]

/-- what is nested in a list: it does not start with what closes the list, and is read before that and before a comma -/
def Listed (nested : Reader Expr) (parts : List Part) : Prop :=
  ∀ p ∈ parts, Opened false p.1 ∧ ∀ rest, Ends 6 rest → nested.run (p.1 ++ rest) = .ok (p.2, rest)

theorem primary_call {f : Builtin} {parts : List Part} (arity : f.accepts parts.length = true)
    (hp : Listed nested parts) (rest : List Lexeme) :
    primary nested (⟨.identifier, f.name⟩ :: openParen :: (joined comma parts ++ closeParen :: rest)) =
      .ok (.call f (trees parts), rest) := by
  have hargs : listUntil closeParen nested (joined comma parts ++ closeParen :: rest) = .ok (trees parts, rest) :=
    listUntil_complete (k := 6) (by decide) (by decide) (by decide) (fun p h => (hp p h).2)
      (fun p h => by obtain ⟨l, more, hl, ho⟩ := (hp p h).1; exact ⟨l, more, hl, ho.not_paren⟩) rest
  simp [primary, named, word?_name, Builtin.ofName?_name, hargs, arity]

theorem primary_array {parts : List Part} (hp : Listed nested parts) (rest : List Lexeme) :
    primary nested (openBracket :: (joined comma parts ++ closeBracket :: rest)) =
      .ok (.array (trees parts), rest) := by
  have hitems : listUntil closeBracket nested (joined comma parts ++ closeBracket :: rest) = .ok (trees parts, rest) :=
    listUntil_complete (k := 6) (by decide) (by decide) (by decide) (fun p h => (hp p h).2)
      (fun p h => by obtain ⟨l, more, hl, ho⟩ := (hp p h).1; exact ⟨l, more, hl, ho.not_bracket⟩) rest
  have hkind : openBracket.kind = .bracket := rfl
  have hne : openBracket ≠ openParen := by decide
  simp [primary, hkind, hne, hitems]

theorem primary_parenthesised {ls : List Lexeme} {e : Expr} {rest : List Lexeme}
    (h : nested.run (ls ++ closeParen :: rest) = .ok (e, closeParen :: rest)) :
    primary nested (openParen :: (ls ++ closeParen :: rest)) = .ok (e, rest) := by
  simp [primary, openParen, h, expect]

end

/-- **A phrase is read whole.** Before lexemes that end it, the reader of its category takes it and gives its tree; when
it is a chain so far, the reader goes on from there. -/
theorem Derives.read {c : Category} {d : Nat} {ls : List Lexeme} {e : Expr} (h : Derives c d ls e) :
    ∀ rest, Ends c.looseness rest → reader c d (ls ++ rest) = resume c d e rest := by
  induction h with
  | expression level _ ih =>
    intro rest hr
    rw [reader, readers_nested level]
    exact ih rest hr
  | @consequence d ls e _ ih =>
    intro rest hr
    have hl : (disjunctions d).run (ls ++ rest) = .ok (e, rest) := ih rest (hr.mono (show 5 ≤ 6 by decide))
    rw [reader, implications_run, hl]
    cases rest with
    | nil => rfl
    | cons l rest =>
      have harrow : l ≠ arrow := by simpa using hr.head?_ne (m := arrow) (by decide)
      simp [resume, harrow]
  | @implies d xs ys a b _ _ ihl ihr =>
    intro rest hr
    have hl : (disjunctions d).run (xs ++ arrow :: (ys ++ rest)) = .ok (a, arrow :: (ys ++ rest)) :=
      ihl _ (ends_cons.2 (by decide))
    have hn : (readers d).nested.run (ys ++ rest) = .ok (b, rest) := ihr rest hr
    rw [reader, implications_run, List.append_assoc, List.cons_append, hl]
    simp [resume, hn]
  | disjunction parts some_part _ ih =>
    intro rest hr
    exact chain_complete (k := 4) .or (l := operator .or) (by decide) hr some_part ih
  | conjunction parts some_part _ ih =>
    intro rest hr
    exact chain_complete (k := 3) .and (l := operator .and) (by decide) hr some_part ih
  | equality _ ih =>
    intro rest hr
    exact (ih rest (hr.mono (show 2 ≤ 3 by decide))).trans (comparisons_of_ends (hr.equality?_eq_none (by decide)) _ _)
  | firstEquality _ ih =>
    intro rest hr
    exact comparison_first (ih rest hr)
  | @nextEquality d i xs ys a b op _ equates level _ ihl ihr =>
    intro rest hr
    have hop : equality? (operator op) = some op := equality?_eq_some.2 ⟨rfl, equates⟩
    have hl := ihl (operator op :: (ys ++ rest)) (ends_equality hop _)
    rw [List.append_assoc, List.cons_append]
    refine hl.trans ?_
    rw [resume, relations_deeper (by omega)]
    exact comparisons_cons hop (ihr rest hr)
  | relation _ ih =>
    intro rest hr
    exact (ih rest (hr.mono (show 1 ≤ 2 by decide))).trans (comparisons_of_ends (hr.relation?_eq_none (by decide)) _ _)
  | firstRelation _ ih =>
    intro rest hr
    exact comparison_first (ih rest hr)
  | @nextRelation d i xs ys a b op _ relates level _ ihl ihr =>
    intro rest hr
    have hop : relation? (operator op) = some op := relation?_eq_some.2 ⟨rfl, relates⟩
    have hl := ihl (operator op :: (ys ++ rest)) (ends_relation hop _)
    rw [List.append_assoc, List.cons_append]
    refine hl.trans ?_
    rw [resume, readers_deeper (by omega)]
    exact comparisons_cons hop (ihr rest hr)
  | @not d ls e level _ ih =>
    intro rest hr
    have hd : (deeperUnary d).run (ls ++ rest) = .ok (e, rest) := by
      rw [deeperUnary, if_pos (show d < depthLimit from level)]
      exact ih rest hr
    rw [reader, readers_unary]
    simp [Reading.unary, hd, resume]
  | positive h ih =>
    intro rest hr
    obtain ⟨l, more, rfl, ho⟩ := h.opened
    rw [reader, readers_unary]
    simp only [Reading.unary, List.cons_append, ho.not_bang rfl, if_false]
    exact ih rest hr
  | term _ ih =>
    intro rest hr
    exact (ih rest (hr.mono (show 0 ≤ 1 by decide))).trans (suffixed_of_ends hr _ _ _)
  | bare _ ih =>
    intro rest hr
    exact postfixed_eq (ih rest hr)
  | key _ other ih =>
    intro rest hr
    rw [List.append_assoc]
    have hparen : rest.head? ≠ some openParen := hr.head?_ne (show looseness openParen ≤ 0 by decide)
    exact (ih _ (ends_dot _)).trans (suffixed_key other hparen)
  | @position d j ls p text i _ index ih =>
    intro rest hr
    rw [List.append_assoc]
    have hs : segment ⟨.number, text⟩ = .ok (.index i) := by simp only [Reading.segment, index]
    exact (ih _ (ends_openBracket _)).trans (suffixed_segment hs rest)
  | quotedKey _ ih =>
    intro rest hr
    rw [List.append_assoc]
    exact (ih _ (ends_openBracket _)).trans (suffixed_segment rfl rest)
  | @length d j ls e _ level ih =>
    intro rest hr
    rw [List.append_assoc]
    refine (ih _ (ends_dot _)).trans ?_
    rw [resume, show depthLimit - (d + j) = depthLimit - (d + (j + 1)) + 1 by omega]
    exact suffixed_length _ _ e rest
  | every _ _ ihp ihb =>
    intro rest hr
    simp only [List.append_assoc, List.cons_append, List.nil_append]
    exact (ihp _ (ends_dot _)).trans (suffixed_every (ihb _ (ends_closeParen _)))
  | number denotes => intro rest _; simp [reader, primary, denotes, resume]
  | string => intro rest _; simp [reader, primary, resume]
  | word denotes => intro rest _; simp [reader, primary, named, denotes, resume]
  | field free =>
    intro rest hr
    exact primary_field free (hr.head?_ne (by decide))
  | call f parts arity args ih =>
    intro rest _
    rw [List.cons_append, List.cons_append, List.append_assoc]
    exact primary_call arity (fun p hp => ⟨(args p hp).opened, ih p hp⟩) rest
  | array parts items ih =>
    intro rest _
    rw [List.cons_append, List.append_assoc]
    exact primary_array (fun p hp => ⟨(items p hp).opened, ih p hp⟩) rest
  | parenthesised _ ih =>
    intro rest _
    rw [List.cons_append, List.append_assoc]
    exact primary_parenthesised (ih _ (ends_closeParen _))

/-! ## Expressions -/

theorem ofTokens?_eq_ok {tokens : List Token} {e : Expr} :
    Expr.ofTokens? tokens = .ok e ↔ (readers 0).nested.run (tokens.map (·.toLexeme)) = .ok (e, []) := by
  rw [readers_zero, Expr.ofTokens?]
  split
  · next h => simp [h]
  · next h => simp [h]
  · next h => simp [h]

theorem derives_of_ofTokens? {tokens : List Token} {e : Expr} (h : Expr.ofTokens? tokens = .ok e) :
    Derives .expression 0 (tokens.map (·.toLexeme)) e := by
  obtain ⟨taken, ht, hd⟩ := (readers_sound 0).1 _ _ _ (ofTokens?_eq_ok.1 h)
  rw [ht, List.append_nil]
  exact hd

theorem ofTokens?_of_derives {tokens : List Token} {e : Expr}
    (h : Derives .expression 0 (tokens.map (·.toLexeme)) e) : Expr.ofTokens? tokens = .ok e := by
  rw [ofTokens?_eq_ok]
  have := h.read [] (ends_nil _)
  rw [List.append_nil] at this
  exact this

/-- **The readers accept the grammar and nothing else.** Tokens are read into a tree exactly when all of them, from the
first to the last, are an expression of the grammar with that tree; and they are an expression in one way at most. -/
theorem ofTokens?_eq_ok_iff_derives (tokens : List Token) :
    (∀ e, Expr.ofTokens? tokens = .ok e ↔ Derives .expression 0 (tokens.map (·.toLexeme)) e) ∧
      ∀ e e', Derives .expression 0 (tokens.map (·.toLexeme)) e →
        Derives .expression 0 (tokens.map (·.toLexeme)) e' → e = e' := by
  refine ⟨fun e => ⟨derives_of_ofTokens?, ofTokens?_of_derives⟩, fun e e' he he' => ?_⟩
  have h : (.ok e : Except ParseError Expr) = .ok e' := (ofTokens?_of_derives he).symm.trans (ofTokens?_of_derives he')
  exact Except.ok.inj h

end Grammar

end Proviso
