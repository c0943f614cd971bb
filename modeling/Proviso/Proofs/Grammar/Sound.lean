/-
What is read is a phrase: every reader takes lexemes from the front that the grammar derives, with the tree that it
gives.

`Sound read L` says so of a reader and a language. It passes from the readers of items to lists and chains
(`separated_sound`, `listUntil_sound`, `comparisons_sound`), from expressions to terms (`postfixed_sound`), and from the
readers of one level to those of the level above (`readers_sound`). The loops carry what they have read so far as a
derivation, which each turn extends.
-/
import Proviso.Proofs.Grammar.Readers

namespace Proviso

namespace Grammar

open Reading

/-- what a reader takes, it takes from the front, and the language `L` has it with the tree that was given -/
def Sound (read : List Lexeme → Outcome Expr) (L : List Lexeme → Expr → Prop) : Prop :=
  ∀ ls e rest, read ls = .ok (e, rest) → ∃ taken, ls = taken ++ rest ∧ L taken e

theorem outcome_inj {α : Type} {a b : α} {ls rest : List Lexeme} (h : (.ok (a, ls) : Outcome α) = .ok (b, rest)) :
    a = b ∧ ls = rest :=
  Prod.mk.inj (Except.ok.inj h)

theorem tooDeep_sound (L : List Lexeme → Expr → Prop) : Sound tooDeep.run L := by
  intro ls e rest h
  simp [tooDeep, refuse] at h

/-! ## Lists and chains -/

theorem separated_sound {item : Reader Expr} {L : List Lexeme → Expr → Prop} (hi : Sound item.run L)
    (separator : Lexeme) (ls : List Lexeme) :
    ∀ es rest, separated item separator ls = .ok (es, rest) →
      ∃ parts : List Part, parts ≠ [] ∧ ls = joined separator parts ++ rest ∧ es = trees parts ∧
        ∀ p ∈ parts, L p.1 p.2 := by
  fun_induction separated item separator ls with
  | case1 ls err he => intro es rest h; simp at h
  | case2 ls e he =>
    intro es rest h
    obtain ⟨rfl, rfl⟩ := outcome_inj h
    obtain ⟨taken, rfl, ht⟩ := hi _ _ _ he
    exact ⟨[(taken, e)], by simp, by simp, rfl, by simpa using ht⟩
  | case3 ls e rest err hs he ih => intro es rest' h; simp at h
  | case4 ls e rest es out hs he ih =>
    intro es' rest' h
    obtain ⟨rfl, rfl⟩ := outcome_inj h
    obtain ⟨taken, rfl, ht⟩ := hi _ _ _ he
    obtain ⟨parts, some_part, rfl, rfl, hp⟩ := ih _ _ hs
    obtain ⟨q, parts, rfl⟩ := List.exists_cons_of_ne_nil some_part
    refine ⟨(taken, e) :: q :: parts, by simp, by simp, rfl, fun p hm => ?_⟩
    rcases List.mem_cons.1 hm with rfl | hm
    · exact ht
    · exact hp p hm
  | case5 ls e l rest he hl =>
    intro es rest' h
    obtain ⟨rfl, rfl⟩ := outcome_inj h
    obtain ⟨taken, rfl, ht⟩ := hi _ _ _ he
    exact ⟨[(taken, e)], by simp, by simp, rfl, by simpa using ht⟩

theorem listUntil_sound {item : Reader Expr} {L : List Lexeme → Expr → Prop} (hi : Sound item.run L)
    {close : Lexeme} {ls : List Lexeme} {es : List Expr} {rest : List Lexeme}
    (h : listUntil close item ls = .ok (es, rest)) :
    ∃ parts : List Part, ls = joined comma parts ++ close :: rest ∧ es = trees parts ∧ ∀ p ∈ parts, L p.1 p.2 := by
  rcases listUntil_eq_ok.1 h with ⟨rfl, rfl⟩ | ⟨-, hs⟩
  · exact ⟨[], rfl, rfl, by simp⟩
  · obtain ⟨parts, -, hl, he, hp⟩ := separated_sound hi comma _ _ _ hs
    exact ⟨parts, hl, he, hp⟩

theorem chain_sound {operand : Reader Expr} {L M : List Lexeme → Expr → Prop} (ho : Sound operand.run L)
    (op : BinaryOp) (l : Lexeme)
    (fold : ∀ parts : List Part, parts ≠ [] → (∀ p ∈ parts, L p.1 p.2) →
      M (joined l parts) (.balanced op (trees parts))) :
    Sound (chain op l operand).run M := by
  intro ls e rest h
  simp only [chain] at h
  split at h
  · simp at h
  · next es out hs =>
    obtain ⟨rfl, rfl⟩ := outcome_inj h
    obtain ⟨parts, some_part, rfl, rfl, hp⟩ := separated_sound ho l _ _ _ hs
    exact ⟨_, rfl, fold parts some_part hp⟩

/-- After `xs` has been read, more of `ls` has been read, down to `rest`, and both together are a chain. -/
def Extends (chained : Nat → List Lexeme → Expr → Prop) (xs ls : List Lexeme) (e : Expr) (rest : List Lexeme) : Prop :=
  ∃ k more, ls = more ++ rest ∧ chained k (xs ++ more) e

theorem Extends.done {chained : Nat → List Lexeme → Expr → Prop} {k : Nat} {xs ls rest : List Lexeme} {e e' : Expr}
    (hx : chained k xs e) (h : (.ok (e, ls) : Outcome Expr) = .ok (e', rest)) : Extends chained xs ls e' rest := by
  obtain ⟨rfl, rfl⟩ := outcome_inj h
  exact ⟨k, [], rfl, by simpa using hx⟩

theorem Extends.step {chained : Nat → List Lexeme → Expr → Prop} {xs ls rest : List Lexeme} {e : Expr}
    (ys : List Lexeme) (h : Extends chained (xs ++ ys) ls e rest) : Extends chained xs (ys ++ ls) e rest := by
  obtain ⟨k, more, rfl, hm⟩ := h
  exact ⟨k, ys ++ more, by simp, by simpa using hm⟩

/-- The chains of one kind of comparisons. `chained i` are those of `i` comparisons, and `L i` has the right operand of
the i-th one; `operands i` read what comes after `i` comparisons, as long as there is a level for it. -/
structure Chains (operator? : Lexeme → Option BinaryOp) (operands : Nat → List (Reader Expr))
    (L chained : Nat → List Lexeme → Expr → Prop) : Prop where
  extend : ∀ i xs ys a b l op, chained i xs a → operator? l = some op → L (i + 1) ys b →
    chained (i + 1) (xs ++ l :: ys) (.binary op a b)
  levels : ∀ i, operands i = [] ∨ ∃ r, operands i = r :: operands (i + 1) ∧ Sound r.run (L (i + 1))

section

variable {operator? : Lexeme → Option BinaryOp} {operands : Nat → List (Reader Expr)}
  {L chained : Nat → List Lexeme → Expr → Prop} (hc : Chains operator? operands L chained)

include hc

/-- what a chain of comparisons has read stays a chain when it reads on -/
theorem comparisons_sound {rs : List (Reader Expr)} {i : Nat} (hi : operands i = rs) {xs ls rest : List Lexeme}
    {left e : Expr} (hx : chained i xs left) (h : comparisons operator? rs left ls = .ok (e, rest)) :
    Extends chained xs ls e rest := by
  fun_induction comparisons operator? rs left ls generalizing i xs with
  | case1 => exact .done hx h
  | case2 => exact .done hx h
  | case3 => simp [refuse] at h
  | case4 => simp at h
  | case5 left l tail op hop r rs right mid hr ih =>
    rcases hc.levels i with hnil | ⟨r', hcons, hs⟩
    · simp [hi] at hnil
    · rw [hi] at hcons
      obtain ⟨rfl, hrs⟩ := List.cons.inj hcons
      obtain ⟨ys, rfl, hy⟩ := hs _ _ _ hr
      exact .step (l :: ys) (ih hrs.symm (hc.extend i xs ys left right l op hx hop hy) h)

theorem comparison_sound {operand : Reader Expr} {M N : List Lexeme → Expr → Prop} (ho : Sound operand.run M)
    (first : ∀ ys a, M ys a → chained 0 ys a) (whole : ∀ i ys e, chained i ys e → N ys e) :
    Sound (comparison operator? operand (operands 0)).run N := by
  intro ls e rest h
  simp only [comparison] at h
  split at h
  · simp at h
  · next left mid hl =>
    obtain ⟨xs, rfl, hx⟩ := ho _ _ _ hl
    obtain ⟨j, more, rfl, hj⟩ := comparisons_sound hc rfl (first _ _ hx) h
    exact ⟨xs ++ more, by simp, whole _ _ _ hj⟩

end

/-! ## Operators -/

theorem relation_sound (d : Nat) (hu : ∀ k, d ≤ k → Sound (readers k).unary.run (Derives .unary k)) :
    Sound (relation d).run (Derives .relation d) := by
  have hc : Chains relation? (fun i => (readers (d + i)).deeper)
      (fun i ys b => d + i ≤ depthLimit ∧ Derives .unary (d + i) ys b) (fun i => Derives (.relations i) d) := by
    constructor
    case extend =>
      rintro i xs ys a b l op hx hop ⟨hl, hy⟩
      obtain ⟨rfl, hrel⟩ := relation?_eq_some.1 hop
      exact .nextRelation hx hrel hl hy
    case levels =>
      intro i
      rcases Nat.lt_or_ge (d + i) depthLimit with hlt | hge
      · refine .inr ⟨_, readers_deeper hlt, fun ls e rest h => ?_⟩
        obtain ⟨ys, rfl, hy⟩ := hu (d + i + 1) (by omega) _ _ _ h
        exact ⟨ys, rfl, by omega, hy⟩
      · exact .inl (readers_deeper_of_le hge)
  exact comparison_sound hc (hu d (Nat.le_refl d)) (fun ys a ha => .firstRelation ha) fun i ys e h => .relation h

theorem equality_sound (d : Nat) (hr : ∀ k, d ≤ k → Sound (relation k).run (Derives .relation k)) :
    Sound (equality d).run (Derives .equality d) := by
  have hc : Chains equality? (fun i => relations (readers (d + i)).deeper)
      (fun i ys b => d + i ≤ depthLimit ∧ Derives .relation (d + i) ys b) (fun i => Derives (.equalities i) d) := by
    constructor
    case extend =>
      rintro i xs ys a b l op hx hop ⟨hl, hy⟩
      obtain ⟨rfl, heq⟩ := equality?_eq_some.1 hop
      exact .nextEquality hx heq hl hy
    case levels =>
      intro i
      rcases Nat.lt_or_ge (d + i) depthLimit with hlt | hge
      · refine .inr ⟨_, relations_deeper hlt, fun ls e rest h => ?_⟩
        obtain ⟨ys, rfl, hy⟩ := hr (d + i + 1) (by omega) _ _ _ h
        exact ⟨ys, rfl, by omega, hy⟩
      · exact .inl (relations_deeper_of_le hge)
  exact comparison_sound hc (hr d (Nat.le_refl d)) (fun ys a ha => .firstEquality ha) fun i ys e h => .equality h

theorem implication_sound (d : Nat) (he : Sound (equality d).run (Derives .equality d))
    (hn : Sound (readers d).nested.run (Derives .expression d)) :
    Sound (implications d).run (Derives .implication d) := by
  have hc : Sound (conjunctions d).run (Derives .conjunction d) :=
    chain_sound he .and _ fun parts hp => .conjunction parts hp
  have hd : Sound (disjunctions d).run (Derives .disjunction d) :=
    chain_sound hc .or _ fun parts hp => .disjunction parts hp
  intro ls e rest h
  rw [implications_run] at h
  split at h
  · simp at h
  · next left hl =>
    obtain ⟨rfl, rfl⟩ := outcome_inj h
    obtain ⟨xs, rfl, hx⟩ := hd _ _ _ hl
    exact ⟨xs, rfl, .consequence hx⟩
  · next left l mid hl =>
    obtain ⟨xs, rfl, hx⟩ := hd _ _ _ hl
    split at h
    · next harrow =>
      split at h
      · simp at h
      · next right tail hr =>
        obtain ⟨rfl, rfl⟩ := outcome_inj h
        obtain ⟨ys, rfl, hy⟩ := hn _ _ _ hr
        exact ⟨xs ++ arrow :: ys, by simp [harrow], .implies hx hy⟩
    · obtain ⟨rfl, rfl⟩ := outcome_inj h
      exact ⟨xs, rfl, .consequence hx⟩

/-! ## Terms -/

theorem lambda_sound {nested : Reader Expr} {L : List Lexeme → Expr → Prop} (hn : Sound nested.run L)
    {ls rest : List Lexeme} {param : String} {e : Expr} (h : lambda nested ls = .ok ((param, e), rest)) :
    ∃ ys, ls = ⟨.identifier, param⟩ :: arrow :: (ys ++ closeParen :: rest) ∧ L ys e := by
  unfold lambda at h
  split at h
  · simp [refuse] at h
  · next l tail =>
    split at h
    · simp [refuse] at h
    · next hkind =>
      split at h
      · simp at h
      · next afterArrow ha =>
        split at h
        · simp at h
        · next body afterBody hb =>
          split at h
          · simp at h
          · next hc =>
            obtain ⟨hpair, rfl⟩ := outcome_inj h
            obtain ⟨rfl, rfl⟩ := Prod.mk.inj hpair
            obtain ⟨ys, rfl, hy⟩ := hn _ _ _ hb
            obtain ⟨kind, text⟩ := l
            simp only [ne_eq, Decidable.not_not] at hkind
            rw [expect_eq_ok] at ha hc
            subst hkind ha hc
            exact ⟨ys, rfl, hy⟩

theorem segment_eq_ok {l : Lexeme} {s : Segment} (h : Reading.segment l = .ok s) :
    (∃ text i, l = ⟨.number, text⟩ ∧ Decimal.index? text.toList = some i ∧ s = .index i) ∨
      ∃ name, l = ⟨.string, name⟩ ∧ s = .key name := by
  obtain ⟨kind, text⟩ := l
  cases kind <;> simp only [Reading.segment, reduceCtorEq] at h
  case number =>
    split at h
    · next i hi => cases h; exact .inl ⟨text, i, rfl, hi, rfl⟩
    · cases h
  case string => cases h; exact .inr ⟨text, rfl, rfl⟩

theorem valueSuffixes_sound {d j levels : Nat} {xs ls rest : List Lexeme} {e e' : Expr}
    (hx : Derives (.suffixes j) d xs e) (hl : levels = depthLimit - (d + j))
    (h : valueSuffixes levels e ls = .ok (e', rest)) : Extends (fun j => Derives (.suffixes j) d) xs ls e' rest := by
  fun_induction valueSuffixes levels e ls generalizing j xs with
  | case1 => exact .done hx h
  | case5 e l more hkind hlength levels ih =>
    obtain ⟨kind, text⟩ := l
    simp only [ne_eq, Decidable.not_not] at hkind hlength
    subst hkind hlength
    exact .step _ (ih (.length hx (by omega)) (by omega) h)
  | case9 => exact .done hx h
  | _ => simp [refuse] at h

theorem pathSuffixes_sound {d j levels : Nat} {nested : Reader Expr} (hn : Sound nested.run (Derives .expression d))
    {xs ls rest : List Lexeme} {p : Path} {e : Expr}
    (hx : Derives (.suffixes j) d xs (.field p)) (hl : levels = depthLimit - (d + j))
    (h : pathSuffixes levels nested p ls = .ok (e, rest)) :
    Extends (fun j => Derives (.suffixes j) d) xs ls e rest := by
  fun_induction pathSuffixes levels nested p ls generalizing xs with
  | case1 => exact .done hx h
  | case5 p l more hkind hlength levels hlevels =>
    obtain ⟨kind, text⟩ := l
    simp only [ne_eq, Decidable.not_not] at hkind hlength
    subst hkind hlength
    exact .step _ (valueSuffixes_sound (.length hx (by omega)) (by omega) h)
  | case6 p l hkind hlength =>
    obtain ⟨kind, text⟩ := l
    simp only [ne_eq, Decidable.not_not] at hkind hlength
    subst hkind
    exact .step [dot, _] (.done (.key hx hlength) h)
  | case8 p l hkind hlength next body hevery param e' after hb =>
    obtain ⟨kind, text⟩ := l
    simp only [ne_eq, Decidable.not_not] at hkind hevery
    obtain ⟨rfl, rfl⟩ := hevery
    obtain ⟨ys, rfl, hy⟩ := lambda_sound hn hb
    subst hkind
    have hev : Derives (.suffixes j) d _ (.every p param e') := .every hx hy
    have := Extends.step _ (valueSuffixes_sound hev hl h)
    simpa using this
  | case9 p l hkind hlength next body hevery ih =>
    obtain ⟨kind, text⟩ := l
    simp only [ne_eq, Decidable.not_not] at hkind hlength
    subst hkind
    exact .step [dot, _] (ih (.key hx hlength) h)
  | case13 p l s hs more _ ih =>
    have hp : Derives (.suffixes j) d (xs ++ [openBracket, l, closeBracket]) (.field (p.push s)) := by
      rcases segment_eq_ok hs with ⟨text, i, rfl, hi, rfl⟩ | ⟨name, rfl, rfl⟩
      · exact .position hx hi
      · exact .quotedKey hx
    exact .step [openBracket, l, closeBracket] (ih hp h)
  | case15 => exact .done hx h
  | _ => simp_all [refuse]

theorem named_sound {d : Nat} {nested : Reader Expr} (hn : Sound nested.run (Derives .expression d)) {name : String}
    {ls rest out : List Lexeme} {e : Expr} (h : named nested name ls rest = .ok (e, out)) :
    ∃ more, rest = more ++ out ∧ Derives .primary d (⟨.identifier, name⟩ :: more) e := by
  unfold named at h
  split at h
  · next l hw =>
    obtain ⟨rfl, rfl⟩ := outcome_inj h
    exact ⟨[], rfl, .word hw⟩
  · next hw =>
    split at h
    · obtain ⟨rfl, rfl⟩ := outcome_inj h
      exact ⟨[], rfl, .field hw⟩
    · next l more =>
      split at h
      · next hopen =>
        split at h
        · simp [refuse] at h
        · next f hf =>
          split at h
          · simp at h
          · next args tail hlist =>
            split at h
            · next harity =>
              obtain ⟨rfl, rfl⟩ := outcome_inj h
              obtain ⟨parts, rfl, rfl, hp⟩ := listUntil_sound hn hlist
              have hname : f.name = name := by simpa using List.find?_some hf
              subst hopen hname
              have hargs : f.accepts parts.length = true := by simpa using harity
              exact ⟨openParen :: (joined comma parts ++ [closeParen]), by simp, .call f parts hargs hp⟩
            · simp [refuse] at h
      · obtain ⟨rfl, rfl⟩ := outcome_inj h
        exact ⟨[], rfl, .field hw⟩

theorem primary_sound {d : Nat} {nested : Reader Expr} (hn : Sound nested.run (Derives .expression d)) :
    Sound (primary nested) (Derives .primary d) := by
  intro ls e out h
  unfold primary at h
  split at h
  · simp [refuse] at h
  · next l rest =>
    obtain ⟨kind, text⟩ := l
    split at h
    · next hk =>
      split at h
      · next n hnum =>
        obtain ⟨rfl, rfl⟩ := outcome_inj h
        subst hk
        exact ⟨[_], rfl, .number hnum⟩
      · simp [refuse] at h
    · next hk =>
      obtain ⟨rfl, rfl⟩ := outcome_inj h
      subst hk
      exact ⟨[_], rfl, .string⟩
    · next hk =>
      obtain ⟨more, rfl, hm⟩ := named_sound hn h
      subst hk
      exact ⟨_ :: more, rfl, hm⟩
    · split at h
      · next hopen =>
        split at h
        · simp at h
        · next inner mid hi =>
          split at h
          · simp at h
          · next tail hc =>
            obtain ⟨rfl, rfl⟩ := outcome_inj h
            obtain ⟨ys, rfl, hy⟩ := hn _ _ _ hi
            rw [expect_eq_ok] at hc
            subst hc
            exact ⟨openParen :: (ys ++ [closeParen]), by simp [hopen], .parenthesised hy⟩
      · split at h
        · next hopen =>
          split at h
          · simp at h
          · next items tail hitems =>
            obtain ⟨rfl, rfl⟩ := outcome_inj h
            obtain ⟨parts, rfl, rfl, hp⟩ := listUntil_sound hn hitems
            exact ⟨openBracket :: (joined comma parts ++ [closeBracket]), by simp [hopen], .array parts hp⟩
        · simp [refuse] at h

theorem postfixed_sound {d : Nat} {nested : Reader Expr} (hn : Sound nested.run (Derives .expression d)) :
    Sound (postfixed (depthLimit - d) nested) (Derives .term d) := by
  intro ls e rest h
  unfold postfixed at h
  split at h
  · simp at h
  · next p mid hp =>
    obtain ⟨xs, rfl, hx⟩ := primary_sound hn _ _ _ hp
    obtain ⟨k, more, rfl, hm⟩ := pathSuffixes_sound hn (.bare hx) rfl h
    exact ⟨xs ++ more, by simp, .term hm⟩
  · next e' mid _ hp =>
    obtain ⟨xs, rfl, hx⟩ := primary_sound hn _ _ _ hp
    obtain ⟨k, more, rfl, hm⟩ := valueSuffixes_sound (.bare hx) rfl h
    exact ⟨xs ++ more, by simp, .term hm⟩

theorem unary_sound {d : Nat}
    (hd : Sound (deeperUnary d).run fun ls e => d + 1 ≤ depthLimit ∧ Derives .unary (d + 1) ls e)
    (hn : Sound (readers d).nested.run (Derives .expression d)) : Sound (readers d).unary.run (Derives .unary d) := by
  rw [readers_unary]
  intro ls e rest h
  simp only [Reading.unary] at h
  split at h
  · next l tail =>
    split at h
    · next hbang =>
      split at h
      · simp at h
      · next inner mid hi =>
        obtain ⟨rfl, rfl⟩ := outcome_inj h
        obtain ⟨ys, rfl, hl, hy⟩ := hd _ _ _ hi
        exact ⟨bang :: ys, by simp [hbang], .not hl hy⟩
    · obtain ⟨xs, hxs, hx⟩ := postfixed_sound hn _ _ _ h
      exact ⟨xs, hxs, .positive hx⟩
  · obtain ⟨xs, hxs, hx⟩ := postfixed_sound hn _ _ _ h
    exact ⟨xs, hxs, .positive hx⟩

/-! ## Levels -/

/-- **What the readers of a level take is a phrase of that level.** -/
theorem readers_sound (d : Nat) :
    Sound (readers d).nested.run (Derives .expression d) ∧ Sound (readers d).unary.run (Derives .unary d) := by
  -- by induction on the levels below: readers are made from those of deeper levels only
  induction hm : depthLimit - d using Nat.strongRecOn generalizing d with
  | _ m ih =>
    rcases Nat.lt_or_ge d depthLimit with hlt | hge
    · have deeper : ∀ k, d + 1 ≤ k → Sound (readers k).nested.run (Derives .expression k) ∧
          Sound (readers k).unary.run (Derives .unary k) := fun k hk => ih (depthLimit - k) (by omega) k rfl
      have hnested : Sound (readers d).nested.run (Derives .expression d) := by
        rw [readers_nested hlt]
        have hrel : ∀ k, d + 1 ≤ k → Sound (relation k).run (Derives .relation k) := fun k hk =>
          relation_sound k fun i hi => (deeper i (by omega)).2
        have himp := implication_sound (d + 1) (equality_sound (d + 1) hrel) (deeper (d + 1) (Nat.le_refl _)).1
        intro ls e rest h
        obtain ⟨xs, rfl, hx⟩ := himp _ _ _ h
        exact ⟨xs, rfl, .expression hlt hx⟩
      refine ⟨hnested, unary_sound (fun ls e rest h => ?_) hnested⟩
      rw [deeperUnary, if_pos hlt] at h
      obtain ⟨xs, rfl, hx⟩ := (deeper (d + 1) (Nat.le_refl _)).2 _ _ _ h
      exact ⟨xs, rfl, hlt, hx⟩
    · have hnested : Sound (readers d).nested.run (Derives .expression d) := by
        rw [readers_nested_of_le hge]
        exact tooDeep_sound _
      refine ⟨hnested, unary_sound ?_ hnested⟩
      rw [deeperUnary, if_neg (by omega)]
      exact tooDeep_sound _

end Grammar

end Proviso
