/-
What a refusal points at.

A refusal counts the lexemes that were left. So it points before one of the lexemes, or at their end, and there it shows:
what the cause says holds of the lexemes from there on (`ShowsBefore`). An end that is missed is the end; a text, a name
or a builtin in the message is that of the lexeme pointed at; a property of what is no path is refused at its dot.

`Points read` says so of a reader, together with its counterpart for what is read: the rest is an end of the lexemes, so
that a refusal in the rest points into the lexemes too. It passes from the readers of items to lists and chains, from
expressions to terms, and from the readers of one level to those of the level above (`level_points`).
-/
import Proviso.Proofs.Grammar.Readers

namespace Proviso

open Reading

/-- what a cause says of the lexemes before which it shows -/
def ParseError.Cause.ShowsBefore (after : List Lexeme) : ParseError.Cause → Prop
  | .unexpectedEnd | .expectedBeforeEnd _ => after = []
  | .unexpected text | .expected _ text => ∃ l ∈ after.head?, l.text = text
  | .unexpectedInIndex text => ∃ l ∈ after.head?, l.text = text ∧ l.kind ≠ .number ∧ l.kind ≠ .string
  | .noPropertyName | .noParameter => ∀ l ∈ after.head?, l.kind ≠ .identifier
  | .propertyOfValue => ∃ name, after.take 2 = [dot, ⟨.identifier, name⟩]
  | .everyOfValue => after.take 3 = [dot, ⟨.identifier, "every"⟩, openParen]
  | .indexOfValue => after.head? = some openBracket
  | .invalidIndex text => after.head? = some ⟨.number, text⟩ ∧ Decimal.index? text.toList = none
  | .invalidNumber text => after.head? = some ⟨.number, text⟩ ∧ number? text = none
  | .unknownFunction name => after.take 2 = [⟨.identifier, name⟩, openParen] ∧ Builtin.ofName? name = none
  | .wrongArity f given => after.take 2 = [⟨.identifier, f.name⟩, openParen] ∧ f.accepts given = false
  | .tooDeep => True

namespace Grammar

open ParseError.Cause

variable {α : Type} {ls ls' : List Lexeme}

/-- the refusal counts the lexemes of an end of `ls`, before which its cause shows -/
def PointsInto (ls : List Lexeme) (r : Refusal) : Prop :=
  ∃ after, after <:+ ls ∧ r.left = after.length ∧ r.cause.ShowsBefore after

/-- what an outcome leaves of `ls` is an end of `ls`: the rest that was not read, or what a refusal points at -/
def Pointed (ls : List Lexeme) : Outcome α → Prop
  | .ok (_, rest) => rest <:+ ls
  | .error r => PointsInto ls r

/-- the outcomes of a reader point into what it reads -/
def Points (read : List Lexeme → Outcome α) : Prop := ∀ ls, Pointed ls (read ls)

theorem PointsInto.mono {r : Refusal} (h : PointsInto ls r) (hs : ls <:+ ls') : PointsInto ls' r := by
  obtain ⟨after, hafter, hleft, hshows⟩ := h
  exact ⟨after, hafter.trans hs, hleft, hshows⟩

theorem Pointed.mono {o : Outcome α} (h : Pointed ls o) (hs : ls <:+ ls') : Pointed ls' o := by
  cases o with
  | error r => exact PointsInto.mono h hs
  | ok p => exact List.IsSuffix.trans h hs

theorem pointed_refuse {cause : ParseError.Cause} {after : List Lexeme} (hs : after <:+ ls)
    (h : cause.ShowsBefore after) : Pointed ls (refuse cause after : Outcome α) :=
  ⟨after, hs, rfl, h⟩

section

variable {read : List Lexeme → Outcome α} (h : Points read)

include h

theorem Points.error {r : Refusal} (he : read ls = .error r) : PointsInto ls r := by
  have hp := h ls
  rw [he] at hp
  exact hp

theorem Points.rest {a : α} {rest : List Lexeme} (ho : read ls = .ok (a, rest)) : rest <:+ ls := by
  have hp := h ls
  rw [ho] at hp
  exact hp

end

/-- a lexeme that is missed shows where it should stand -/
theorem expect_error {want : Lexeme} {r : Refusal} (h : expect want ls = .error r) : PointsInto ls r := by
  cases ls with
  | nil =>
    obtain rfl := Except.error.inj h
    exact ⟨[], List.suffix_refl _, rfl, rfl⟩
  | cons found tail =>
    simp only [expect] at h
    split at h
    · cases h
    · obtain rfl := Except.error.inj h
      exact ⟨found :: tail, List.suffix_refl _, rfl, found, rfl, rfl⟩

theorem expect_rest {want : Lexeme} {rest : List Lexeme} (h : expect want ls = .ok rest) : rest <:+ ls := by
  rw [expect_eq_ok.1 h]
  exact List.suffix_cons want rest

/-! ## Lists and chains -/

theorem separated_points {item : Reader α} (hi : Points item.run) (separator : Lexeme) :
    Points (separated item separator) := by
  intro ls
  fun_induction separated item separator ls with
  | case1 ls r he => exact hi.error he
  | case2 ls a ho => exact hi.rest ho
  | case3 ls a tail r hs ho ih =>
    rw [hs] at ih
    exact PointsInto.mono ih ((List.suffix_cons _ tail).trans (hi.rest ho))
  | case4 ls a tail as rest hs ho ih =>
    rw [hs] at ih
    exact List.IsSuffix.trans ih ((List.suffix_cons _ tail).trans (hi.rest ho))
  | case5 ls a l rest ho hl => exact hi.rest ho

theorem listUntil_points {item : Reader α} (hi : Points item.run) (close : Lexeme) : Points (listUntil close item) := by
  intro ls
  unfold listUntil
  extract_lets items
  have hitems : Pointed ls items := by
    unfold items
    split
    · next he => exact (separated_points hi comma).error he
    · next xs rest ho =>
      have hs := (separated_points hi comma).rest ho
      split
      · next he => exact (expect_error he).mono hs
      · next hr => exact (expect_rest hr).trans hs
  clear_value items
  split
  · next l rest =>
    split
    · exact List.suffix_cons l rest
    · exact hitems
  · exact hitems

theorem chain_points {operand : Reader Expr} (h : Points operand.run) (op : BinaryOp) (l : Lexeme) :
    Points (chain op l operand).run := by
  intro ls
  simp only [chain]
  split
  · next he => exact (separated_points h l).error he
  · next es rest ho => exact (separated_points h l).rest ho

theorem comparisons_points {operator? : Lexeme → Option BinaryOp} {operands : List (Reader Expr)}
    (h : ∀ r ∈ operands, Points r.run) (left : Expr) : Points (comparisons operator? operands left) := by
  intro ls
  fun_induction comparisons operator? operands left ls with
  | case1 => exact List.suffix_refl []
  | case2 => exact List.suffix_refl _
  | case3 left l tail => exact pointed_refuse (List.suffix_cons l tail) trivial
  | case4 left l tail op hop r rs e he =>
    exact ((h r List.mem_cons_self).error he).mono (List.suffix_cons l tail)
  | case5 left l tail op hop r rs right rest ho ih =>
    have hs := ((h r List.mem_cons_self).rest ho).trans (List.suffix_cons l tail)
    exact (ih fun r' hr' => h r' (List.mem_cons_of_mem r hr')).mono hs

theorem comparison_points {operator? : Lexeme → Option BinaryOp} {operand : Reader Expr} {deeper : List (Reader Expr)}
    (ho : Points operand.run) (hd : ∀ r ∈ deeper, Points r.run) : Points (comparison operator? operand deeper).run := by
  intro ls
  simp only [comparison]
  split
  · next he => exact ho.error he
  · next left rest hl => exact (comparisons_points hd left rest).mono (ho.rest hl)

theorem relations_points {deeper : List (Reader Expr)} (h : ∀ r ∈ deeper, Points r.run) :
    ∀ r ∈ relations deeper, Points r.run := by
  induction deeper with
  | nil => simp [relations]
  | cons operand deeper ih =>
    have hd : ∀ r ∈ deeper, Points r.run := fun r hr => h r (List.mem_cons_of_mem operand hr)
    intro r hr
    rcases List.mem_cons.1 hr with hr | hr
    · subst hr
      exact comparison_points (h operand List.mem_cons_self) hd
    · exact ih hd r hr

/-! ## Terms -/

section

variable {nested : Reader Expr} (hn : Points nested.run)

include hn

theorem lambda_points : Points (lambda nested) := by
  intro ls
  unfold lambda
  split
  · exact pointed_refuse (List.suffix_refl _) (by simp [ShowsBefore])
  · next param tail =>
    split
    · next hkind => exact pointed_refuse (List.suffix_refl _) (by simpa [ShowsBefore] using hkind)
    · have htail : tail <:+ param :: tail := List.suffix_cons param tail
      split
      · next he => exact (expect_error he).mono htail
      · next afterArrow ha =>
        have hs := (expect_rest ha).trans htail
        split
        · next he => exact (hn.error he).mono hs
        · next body afterBody hb =>
          have hs := (hn.rest hb).trans hs
          split
          · next he => exact (expect_error he).mono hs
          · next hc => exact (expect_rest hc).trans hs

theorem named_points {name : String} {rest : List Lexeme} :
    Pointed (⟨.identifier, name⟩ :: rest) (named nested name (⟨.identifier, name⟩ :: rest) rest) := by
  have hrest : rest <:+ (⟨.identifier, name⟩ : Lexeme) :: rest := List.suffix_cons _ rest
  unfold named
  split
  · exact hrest
  · split
    · exact hrest
    · next l more =>
      split
      · next hopen =>
        subst hopen
        split
        · next hf => exact pointed_refuse (List.suffix_refl _) ⟨rfl, hf⟩
        · next f hf =>
          have hmore := (List.suffix_cons openParen more).trans hrest
          split
          · next he => exact ((listUntil_points hn closeParen).error he).mono hmore
          · next args out ho =>
            split
            · exact ((listUntil_points hn closeParen).rest ho).trans hmore
            · next harity =>
              have hname : f.name = name := by simpa using List.find?_some hf
              exact pointed_refuse (List.suffix_refl _) ⟨by simp [hname], by simpa using harity⟩
      · exact hrest

theorem primary_points : Points (primary nested) := by
  intro ls
  unfold primary
  split
  · exact pointed_refuse (List.suffix_refl _) rfl
  · next l rest =>
    obtain ⟨kind, text⟩ := l
    have hrest : rest <:+ (⟨kind, text⟩ : Lexeme) :: rest := List.suffix_cons _ rest
    split
    · next hk =>
      subst hk
      split
      · exact hrest
      · next hnum => exact pointed_refuse (List.suffix_refl _) ⟨rfl, hnum⟩
    · exact hrest
    · next hk =>
      subst hk
      exact named_points hn
    · split
      · split
        · next he => exact (hn.error he).mono hrest
        · next e mid hi =>
          have hs := (hn.rest hi).trans hrest
          split
          · next he => exact (expect_error he).mono hs
          · next hc => exact (expect_rest hc).trans hs
      · split
        · split
          · next he => exact ((listUntil_points hn closeBracket).error he).mono hrest
          · next items out ho => exact ((listUntil_points hn closeBracket).rest ho).trans hrest
        · exact pointed_refuse (List.suffix_refl _) ⟨_, rfl, rfl⟩

end

theorem segment_error {l : Lexeme} {cause : ParseError.Cause} (h : Reading.segment l = .error cause) (more : List Lexeme) :
    cause.ShowsBefore (l :: more) := by
  obtain ⟨kind, text⟩ := l
  cases kind with
  | number =>
    simp only [Reading.segment] at h
    split at h
    · cases h
    · next hindex =>
      cases h
      exact ⟨rfl, hindex⟩
  | string => cases h
  | _ =>
    cases h
    exact ⟨_, rfl, rfl, by simp, by simp⟩

theorem valueSuffixes_points (levels : Nat) (e : Expr) : Points (valueSuffixes levels e) := by
  intro ls
  -- each case names the lexemes read so far, after which its refusal stands
  fun_induction valueSuffixes levels e ls with
  | case1 => exact List.suffix_refl []
  | case2 => exact pointed_refuse ⟨[dot], rfl⟩ (by simp [ShowsBefore])
  | case3 levels e name more hkind => exact pointed_refuse ⟨[dot], rfl⟩ (by simpa [ShowsBefore] using hkind)
  | case4 e name more => exact pointed_refuse ⟨[dot, name], rfl⟩ trivial
  | case5 e name more _ _ _ ih => exact ih.mono ⟨[dot, name], rfl⟩
  | case6 levels e name more hkind _ hevery =>
    obtain ⟨kind, text⟩ := name
    obtain ⟨htext, hopen⟩ := hevery
    obtain ⟨body, rfl⟩ : ∃ body, more = openParen :: body := List.head?_eq_some_iff.1 hopen
    simp only [ne_eq, Decidable.not_not] at hkind htext
    subst hkind htext
    exact pointed_refuse (List.suffix_refl _) rfl
  | case7 levels e name more hkind =>
    obtain ⟨kind, text⟩ := name
    simp only [ne_eq, Decidable.not_not] at hkind
    subst hkind
    exact pointed_refuse (List.suffix_refl _) ⟨text, rfl⟩
  | case8 => exact pointed_refuse (List.suffix_refl _) rfl
  | case9 => exact List.suffix_refl _

theorem pathSuffixes_points {nested : Reader Expr} (hn : Points nested.run) (levels : Nat) (p : Path) :
    Points (pathSuffixes levels nested p) := by
  intro ls
  fun_induction pathSuffixes levels nested p ls with
  | case1 => exact List.suffix_refl []
  | case2 => exact pointed_refuse ⟨[dot], rfl⟩ (by simp [ShowsBefore])
  | case3 p name more hkind => exact pointed_refuse ⟨[dot], rfl⟩ (by simpa [ShowsBefore] using hkind)
  | case4 p name more => exact pointed_refuse ⟨[dot, name], rfl⟩ trivial
  | case5 p name more => exact (valueSuffixes_points _ _ more).mono ⟨[dot, name], rfl⟩
  | case6 p name => exact ⟨[dot, name], rfl⟩
  | case7 p name _ _ next body _ r he => exact ((lambda_points hn).error he).mono ⟨[dot, name, next], rfl⟩
  | case8 p name _ _ next body _ param e rest ho =>
    have hs := ((lambda_points hn).rest ho).trans ⟨[dot, name, next], rfl⟩
    exact (valueSuffixes_points _ _ rest).mono hs
  | case9 p name _ _ next body _ ih => exact ih.mono ⟨[dot, name], rfl⟩
  | case10 => exact pointed_refuse ⟨[openBracket], rfl⟩ rfl
  | case11 p inner more cause hs => exact pointed_refuse ⟨[openBracket], rfl⟩ (segment_error hs more)
  | case12 p inner => exact pointed_refuse ⟨[openBracket, inner], rfl⟩ rfl
  | case13 p inner s _ more _ ih => exact ih.mono ⟨[openBracket, inner, closeBracket], rfl⟩
  | case14 p inner s _ close more => exact pointed_refuse ⟨[openBracket, inner], rfl⟩ ⟨close, rfl, rfl⟩
  | case15 => exact List.suffix_refl _

theorem postfixed_points {nested : Reader Expr} (hn : Points nested.run) (levels : Nat) :
    Points (postfixed levels nested) := by
  intro ls
  unfold postfixed
  split
  · next he => exact (primary_points hn).error he
  · next p rest ho => exact (pathSuffixes_points hn levels p rest).mono ((primary_points hn).rest ho)
  · next e rest _ ho => exact (valueSuffixes_points levels e rest).mono ((primary_points hn).rest ho)

/-! ## Levels -/

theorem unary_points {deeper nested : Reader Expr} (hd : Points deeper.run) (hn : Points nested.run) (levels : Nat) :
    Points (unary levels deeper nested).run := by
  intro ls
  simp only [unary]
  split
  · next l tail =>
    split
    · have htail : tail <:+ l :: tail := List.suffix_cons l tail
      split
      · next he => exact (hd.error he).mono htail
      · next e rest ho => exact (hd.rest ho).trans htail
    · exact postfixed_points hn levels (l :: tail)
  · exact postfixed_points hn levels []

theorem implication_points {unary nested : Reader Expr} {deeper : List (Reader Expr)} (hu : Points unary.run)
    (hd : ∀ r ∈ deeper, Points r.run) (hn : Points nested.run) : Points (implication unary deeper nested).run := by
  have hrelation : Points (comparison relation? unary deeper).run := comparison_points hu hd
  have hequality : Points (comparison equality? (comparison relation? unary deeper) (relations deeper)).run :=
    comparison_points hrelation (relations_points hd)
  have hdisjunction := chain_points (chain_points hequality .and Reading.conjunction) .or Reading.disjunction
  intro ls
  simp only [implication]
  split
  · next he => exact hdisjunction.error he
  · next left ho => exact hdisjunction.rest ho
  · next left l rest ho =>
    have hs := hdisjunction.rest ho
    split
    · have htail := (List.suffix_cons l rest).trans hs
      split
      · next he => exact (hn.error he).mono htail
      · next right out hr => exact (hn.rest hr).trans htail
    · exact hs

/-- **The readers of every level point into what they read.** -/
theorem level_points (n : Nat) :
    Points (level n).nested.run ∧ Points (level n).unary.run ∧ ∀ r ∈ (level n).deeper, Points r.run := by
  have htooDeep : Points tooDeep.run := fun ls => pointed_refuse (List.suffix_refl ls) trivial
  induction n with
  | zero => exact ⟨htooDeep, unary_points htooDeep htooDeep 0, by simp [level]⟩
  | succ n ih =>
    obtain ⟨hnested, hunary, hdeeper⟩ := ih
    have himplication := implication_points hunary hdeeper hnested
    refine ⟨himplication, unary_points hunary himplication (n + 1), ?_⟩
    intro r hr
    rcases List.mem_cons.1 hr with hr | hr
    · subst hr
      exact hunary
    · exact hdeeper r hr

end Grammar
end Proviso
