/-
Readers with fewer levels below them.

A reader with fewer levels does what the same reader with more levels does, until it needs a level that is not there; then
it refuses what it reads as too deep, and for no other cause (`CutOff`). This passes through lists and chains, where the
items are cut off, through terms, where the number of `.length` is, and through comparisons, where the row of operands
ends earlier (`AllCutOff`); so it holds of whole levels (`level_cutsOff`). It follows that a phrase that may stand at a
level may stand at any level above.
-/
import Proviso.Proofs.Grammar.Complete

namespace Proviso

namespace Grammar

open Reading

variable {α : Type}

/-- the first outcome is the second one, unless it is a refusal because no level is left -/
def CutOff (o o' : Outcome α) : Prop := o = o' ∨ ∃ left, o = .error ⟨.tooDeep, left⟩

/-- a reader does as another one does, except that it may run out of levels -/
def CutsOff (read read' : List Lexeme → Outcome α) : Prop := ∀ ls, CutOff (read ls) (read' ls)

theorem CutOff.refl (o : Outcome α) : CutOff o o := .inl rfl

theorem CutOff.tooDeep (ls : List Lexeme) (o : Outcome α) : CutOff (refuse .tooDeep ls) o := .inr ⟨ls.length, rfl⟩

theorem tooDeep_cutsOff (read : List Lexeme → Outcome Expr) : CutsOff tooDeep.run read := fun ls => .tooDeep ls (read ls)

/-! ## Lists and chains -/

section

variable {item item' : Reader α} (h : CutsOff item.run item'.run)

include h

theorem separated_cutsOff (separator : Lexeme) : CutsOff (separated item separator) (separated item' separator) := by
  intro ls
  fun_induction separated item' separator ls with
  | case1 ls r he =>
    rcases h ls with heq | ⟨left, hdeep⟩
    · exact .inl (separated_of_error (heq.trans he) separator)
    · exact .inr ⟨left, separated_of_error hdeep separator⟩
  | case2 ls a ho =>
    rcases h ls with heq | ⟨left, hdeep⟩
    · exact .inl (separated_of_last (heq.trans ho) (by simp))
    · exact .inr ⟨left, separated_of_error hdeep separator⟩
  | case3 ls a rest r hs ho ih =>
    rcases h ls with heq | ⟨left, hdeep⟩
    · rcases ih with hrest | ⟨left, hrest⟩
      · exact .inl (separated_of_later_error (heq.trans ho) (hrest.trans hs))
      · exact .inr ⟨left, separated_of_later_error (heq.trans ho) hrest⟩
    · exact .inr ⟨left, separated_of_error hdeep separator⟩
  | case4 ls a rest as out hs ho ih =>
    rcases h ls with heq | ⟨left, hdeep⟩
    · rcases ih with hrest | ⟨left, hrest⟩
      · exact .inl (separated_of_more (heq.trans ho) (hrest.trans hs))
      · exact .inr ⟨left, separated_of_later_error (heq.trans ho) hrest⟩
    · exact .inr ⟨left, separated_of_error hdeep separator⟩
  | case5 ls a l rest ho hl =>
    rcases h ls with heq | ⟨left, hdeep⟩
    · exact .inl (separated_of_last (heq.trans ho) (by simpa using hl))
    · exact .inr ⟨left, separated_of_error hdeep separator⟩

theorem listUntil_cutsOff (close : Lexeme) : CutsOff (listUntil close item) (listUntil close item') := by
  intro ls
  rcases separated_cutsOff h comma ls with heq | ⟨left, hdeep⟩
  · left
    simp only [listUntil, heq]
  · cases ls with
    | nil =>
      right
      exact ⟨left, by simp only [listUntil, hdeep]⟩
    | cons l tail =>
      by_cases hl : l = close
      · left
        simp only [listUntil, hl, if_true]
      · right
        exact ⟨left, by simp only [listUntil, hdeep, hl, if_false]⟩

end

theorem chain_cutsOff {operand operand' : Reader Expr} (h : CutsOff operand.run operand'.run) (op : BinaryOp)
    (l : Lexeme) : CutsOff (chain op l operand).run (chain op l operand').run := by
  intro ls
  rcases separated_cutsOff h l ls with heq | ⟨left, hdeep⟩
  · left
    simp only [chain, heq]
  · right
    exact ⟨left, by simp only [chain, hdeep]⟩

/-- a row of readers does one by one as a longer row does -/
inductive AllCutOff : List (Reader Expr) → List (Reader Expr) → Prop where
  | nil (rs : List (Reader Expr)) : AllCutOff [] rs
  | cons {r r' : Reader Expr} {rs rs' : List (Reader Expr)} (first : CutsOff r.run r'.run) (more : AllCutOff rs rs') :
    AllCutOff (r :: rs) (r' :: rs')

theorem comparisons_cutsOff {operator? : Lexeme → Option BinaryOp} {rs rs' : List (Reader Expr)} (h : AllCutOff rs rs')
    (left : Expr) : CutsOff (comparisons operator? rs left) (comparisons operator? rs' left) := by
  induction h generalizing left with
  | nil rs' =>
    intro ls
    cases ls with
    | nil => exact .inl (by simp only [comparisons])
    | cons l tail =>
      cases hop : operator? l with
      | none => exact .inl (by simp only [comparisons, hop])
      | some op =>
        simp only [comparisons, hop]
        exact .tooDeep tail _
  | @cons r r' rs rs' first _ ih =>
    intro ls
    cases ls with
    | nil => exact .inl (by simp only [comparisons])
    | cons l tail =>
      cases hop : operator? l with
      | none => exact .inl (by simp only [comparisons, hop])
      | some op =>
        simp only [comparisons, hop]
        rcases first tail with heq | ⟨left, hdeep⟩
        · rw [heq]
          cases r'.run tail with
          | error e => exact .refl _
          | ok p => exact ih _ p.2
        · exact .inr ⟨left, by rw [hdeep]⟩

theorem comparison_cutsOff {operator? : Lexeme → Option BinaryOp} {r r' : Reader Expr} {rs rs' : List (Reader Expr)}
    (h : AllCutOff (r :: rs) (r' :: rs')) :
    CutsOff (comparison operator? r rs).run (comparison operator? r' rs').run := by
  cases h with
  | cons first more =>
    intro ls
    simp only [comparison]
    rcases first ls with heq | ⟨left, hdeep⟩
    · rw [heq]
      cases r'.run ls with
      | error e => exact .refl _
      | ok p => exact comparisons_cutsOff more p.1 p.2
    · exact .inr ⟨left, by rw [hdeep]⟩

theorem relations_allCutOff {rs rs' : List (Reader Expr)} (h : AllCutOff rs rs') :
    AllCutOff (relations rs) (relations rs') := by
  induction h with
  | nil rs' => exact .nil _
  | cons first more ih => exact .cons (comparison_cutsOff (.cons first more)) ih

/-! ## Terms -/

theorem valueSuffixes_cutsOff {m n : Nat} (h : m ≤ n) (e : Expr) :
    CutsOff (valueSuffixes m e) (valueSuffixes n e) := by
  intro ls
  fun_induction valueSuffixes m e ls generalizing n with
  | case4 e l more => exact .tooDeep more _
  | case5 e l more hkind hlength m ih =>
    obtain ⟨n, rfl⟩ : ∃ n', n = n' + 1 := ⟨n - 1, by omega⟩
    rw [valueSuffixes.eq_def (n + 1)]
    simp only [hkind, hlength, if_true, if_false]
    exact ih (Nat.le_of_succ_le_succ h)
  | case1 => exact .inl (by rw [valueSuffixes.eq_def])
  | _ =>
    left
    rw [valueSuffixes.eq_def n]
    simp_all

/-- the lambda of `.every` is read before the other suffixes -/
theorem pathSuffixes_every {levels : Nat} (nested : Reader Expr) (p : Path) {name next : Lexeme} {body : List Lexeme}
    (hkind : ¬name.kind ≠ .identifier) (h : name.text = "every" ∧ next = openParen) :
    pathSuffixes levels nested p (dot :: name :: next :: body) =
      match lambda nested body with
      | .error e => .error e
      | .ok ((param, e), rest) => valueSuffixes levels (.every p param e) rest := by
  obtain ⟨htext, rfl⟩ := h
  have hother : "every" ≠ "length" := by decide
  rw [pathSuffixes.eq_def]
  cases hlambda : lambda nested body with
  | error e => simp only [hkind, htext, hother, hlambda, if_true, if_false, and_self]
  | ok found => simp only [hkind, htext, hother, hlambda, if_true, if_false, and_self]

section

variable {nested nested' : Reader Expr} (hn : CutsOff nested.run nested'.run)

include hn

theorem lambda_cutsOff : CutsOff (lambda nested) (lambda nested') := by
  intro ls
  unfold lambda
  cases ls with
  | nil => exact .refl _
  | cons param tail =>
    simp only
    split
    · exact .refl _
    · cases expect arrow tail with
      | error e => exact .refl _
      | ok rest =>
        rcases hn rest with heq | ⟨left, hdeep⟩
        · exact .inl (by simp only [heq])
        · exact .inr ⟨left, by simp only [hdeep]⟩

theorem named_cutsOff (name : String) (ls rest : List Lexeme) :
    CutOff (named nested name ls rest) (named nested' name ls rest) := by
  unfold named
  cases word? name with
  | some l => exact .refl _
  | none =>
    cases rest with
    | nil => exact .refl _
    | cons l more =>
      simp only
      split
      · cases Builtin.ofName? name with
        | none => exact .refl _
        | some f =>
          rcases listUntil_cutsOff hn closeParen more with heq | ⟨left, hdeep⟩
          · exact .inl (by simp only [heq])
          · exact .inr ⟨left, by simp only [hdeep]⟩
      · exact .refl _

theorem primary_cutsOff : CutsOff (primary nested) (primary nested') := by
  intro ls
  unfold primary
  cases ls with
  | nil => exact .refl _
  | cons l rest =>
    simp only
    split
    · exact .refl _
    · exact .refl _
    · exact named_cutsOff hn l.text (l :: rest) rest
    · split
      · rcases hn rest with heq | ⟨left, hdeep⟩
        · exact .inl (by simp only [heq])
        · exact .inr ⟨left, by simp only [hdeep]⟩
      · split
        · rcases listUntil_cutsOff hn closeBracket rest with heq | ⟨left, hdeep⟩
          · exact .inl (by simp only [heq])
          · exact .inr ⟨left, by simp only [hdeep]⟩
        · exact .refl _

theorem pathSuffixes_cutsOff {m n : Nat} (h : m ≤ n) (p : Path) :
    CutsOff (pathSuffixes m nested p) (pathSuffixes n nested' p) := by
  intro ls
  fun_induction pathSuffixes m nested p ls with
  | case4 p l more => exact .tooDeep more _
  | case5 p l more hkind hlength levels hlevels =>
    obtain ⟨n, rfl⟩ : ∃ n', n = n' + 1 := ⟨n - 1, by omega⟩
    rw [pathSuffixes.eq_def (n + 1)]
    simp only [hkind, hlength, if_true, if_false]
    exact valueSuffixes_cutsOff (by omega) _ more
  | case7 p l hkind hlength next body hevery r he =>
    rw [pathSuffixes_every nested' p hkind hevery]
    rcases lambda_cutsOff hn body with heq | ⟨left, hdeep⟩
    · exact .inl (by rw [← heq, he])
    · obtain rfl := Except.error.inj (he.symm.trans hdeep)
      exact .inr ⟨left, rfl⟩
  | case8 p l hkind hlength next body hevery param e rest ho =>
    rw [pathSuffixes_every nested' p hkind hevery]
    rcases lambda_cutsOff hn body with heq | ⟨left, hdeep⟩
    · rw [← heq, ho]
      exact valueSuffixes_cutsOff h _ rest
    · rw [ho] at hdeep
      cases hdeep
  | case9 p l hkind hlength next body hevery ih =>
    rw [pathSuffixes.eq_def n]
    simp only [hkind, hlength, hevery, if_false]
    exact ih
  | case13 p l s hs more _ ih =>
    have hne : openBracket ≠ dot := by decide
    rw [pathSuffixes.eq_def n]
    simp only [hs, hne, if_true, if_false]
    exact ih
  | case1 => exact .inl (by rw [pathSuffixes.eq_def])
  | _ =>
    -- no level is asked for, so the outcomes are the same
    left
    rw [pathSuffixes.eq_def n]
    simp_all

theorem postfixed_cutsOff {m n : Nat} (h : m ≤ n) : CutsOff (postfixed m nested) (postfixed n nested') := by
  intro ls
  unfold postfixed
  rcases primary_cutsOff hn ls with heq | ⟨left, hdeep⟩
  · rw [heq]
    split
    · exact .refl _
    · next p rest _ => exact pathSuffixes_cutsOff hn h p rest
    · next e rest _ _ => exact valueSuffixes_cutsOff h e rest
  · exact .inr ⟨left, by rw [hdeep]⟩

theorem unary_cutsOff {deeper deeper' : Reader Expr} (hd : CutsOff deeper.run deeper'.run) {m n : Nat} (h : m ≤ n) :
    CutsOff (unary m deeper nested).run (unary n deeper' nested').run := by
  intro ls
  simp only [unary]
  cases ls with
  | nil => exact postfixed_cutsOff hn h []
  | cons l tail =>
    simp only
    split
    · rcases hd tail with heq | ⟨left, hdeep⟩
      · exact .inl (by rw [heq])
      · exact .inr ⟨left, by rw [hdeep]⟩
    · exact postfixed_cutsOff hn h (l :: tail)

/-! ## Levels -/

theorem implication_cutsOff {unary unary' : Reader Expr} {deeper deeper' : List (Reader Expr)}
    (h : AllCutOff (unary :: deeper) (unary' :: deeper')) :
    CutsOff (implication unary deeper nested).run (implication unary' deeper' nested').run := by
  have hrelations := relations_allCutOff h
  have hequality : CutsOff (comparison equality? (comparison relation? unary deeper) (relations deeper)).run
      (comparison equality? (comparison relation? unary' deeper') (relations deeper')).run :=
    comparison_cutsOff hrelations
  have hdisjunction := chain_cutsOff (chain_cutsOff hequality .and Reading.conjunction) .or Reading.disjunction
  intro ls
  simp only [implication]
  rcases hdisjunction ls with heq | ⟨left, hdeep⟩
  · rw [heq]
    split
    · exact .refl _
    · exact .refl _
    · next left l rest _ =>
      split
      · rcases hn rest with heq | ⟨left, hdeep⟩
        · exact .inl (by rw [heq])
        · exact .inr ⟨left, by rw [hdeep]⟩
      · exact .refl _
  · exact .inr ⟨left, by rw [hdeep]⟩

end

/-- **Readers with fewer levels below them do the same until they need one more.** -/
theorem level_cutsOff {m n : Nat} (h : m ≤ n) :
    CutsOff (level m).nested.run (level n).nested.run ∧
      AllCutOff ((level m).unary :: (level m).deeper) ((level n).unary :: (level n).deeper) := by
  induction m generalizing n with
  | zero =>
    -- the lowest level has one operand in its row, and above it there may be more
    refine ⟨tooDeep_cutsOff _, .cons ?_ (.nil _)⟩
    cases n with
    | zero => exact fun ls => .refl _
    | succ n => exact unary_cutsOff (tooDeep_cutsOff _) (tooDeep_cutsOff _) h
  | succ m ih =>
    obtain ⟨n, rfl⟩ : ∃ n', n = n' + 1 := ⟨n - 1, by omega⟩
    obtain ⟨hnested, hrow⟩ := ih (Nat.le_of_succ_le_succ h)
    have himplication := implication_cutsOff hnested hrow
    have hunary : CutsOff (level m).unary.run (level n).unary.run := by
      cases hrow with
      | cons first more => exact first
    exact ⟨himplication, .cons (unary_cutsOff himplication hunary h) hrow⟩

theorem readers_cutsOff {d d' : Nat} (h : d ≤ d') : CutsOff (readers d').nested.run (readers d).nested.run :=
  (level_cutsOff (Nat.sub_le_sub_left h depthLimit)).1

end Grammar

end Proviso
