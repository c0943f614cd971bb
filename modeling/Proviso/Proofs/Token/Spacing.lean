/-
Blanks between tokens.

`Reaches cs ls rest` says that scanning `cs` finds the lexemes `ls` and then stands before `rest`, having cut no lexeme in
two. What it finds from there on depends on `rest` alone, but for the places (`scanFrom_of_reaches`, `scanFrom_shift`), and
blanks before `rest` only move them (`scan_of_reaches`). Scanning a text that has tokens stands so where the text ends, when
a blank follows (`reaches_of_scanFrom`). So scanning distributes over blanks, and a blank at a boundary between two tokens
changes no lexeme (`blanks_between_tokens`); these boundaries are the places within no token (`boundary_iff`).
-/
import Proviso.Proofs.Token.Following

namespace Proviso

theorem utf8ByteSize_eq_byteSize (s : String) : s.utf8ByteSize = byteSize s.toList := by
  rw [← utf8ByteSize_ofList, String.ofList_toList]

theorem byteSize_cons (c : Char) (cs : List Char) : byteSize (c :: cs) = c.utf8Size + byteSize cs := by
  simp [byteSize]

/-- the fault `k` bytes further on -/
def ScanError.shift (k : Nat) (e : ScanError) : ScanError := { e with position := k + e.position }

namespace Token

open Text

/-- the token `k` bytes further on -/
def shift (k : Nat) (t : Token) : Token := { t with start := k + t.start, stop := k + t.stop }

/-! ## Standing between two lexemes -/

/-- scanning the characters finds some lexemes and then stands before the rest of them -/
inductive Reaches : List Char → List Lexeme → List Char → Prop where
  | done (rest : List Char) : Reaches rest [] rest
  | blank {c : Char} {cs rest : List Char} {ls : List Lexeme} (blank : isBlank c = true) (more : Reaches cs ls rest) :
    Reaches (c :: cs) ls rest
  | lexeme {c : Char} {body cs rest : List Char} {l : Lexeme} {ls : List Lexeme} (start : isBlank c = false)
    (next : lexeme c (body ++ cs) = .ok (l, body.length)) (more : Reaches cs ls rest) :
    Reaches (c :: (body ++ cs)) (l :: ls) rest

theorem Reaches.trans {cs mid rest : List Char} {ls more : List Lexeme} (h : Reaches cs ls mid)
    (hmore : Reaches mid more rest) : Reaches cs (ls ++ more) rest := by
  induction h with
  | done => exact hmore
  | blank hc _ ih => exact .blank hc (ih hmore)
  | lexeme hc hl _ ih => exact .lexeme hc hl (ih hmore)

theorem Reaches.blanks {gap cs rest : List Char} {ls : List Lexeme} (hg : ∀ c ∈ gap, isBlank c = true)
    (h : Reaches cs ls rest) : Reaches (gap ++ cs) ls rest := by
  induction gap with
  | nil => exact h
  | cons c gap ih =>
    exact .blank (hg c List.mem_cons_self) (ih fun x hx => hg x (List.mem_cons_of_mem c hx))

/-- a lexeme of the language is found before anything that does not make it longer -/
theorem reaches_written {l : Lexeme} (hl : l.Writable) {rest : List Char} (h : l.EndsBefore rest) :
    Reaches (l.written ++ rest) [l] rest := by
  obtain ⟨c, body, hwritten, hc, hown⟩ := lexeme_written hl apart_nil
  rw [List.append_nil] at hown
  rw [hwritten, List.cons_append]
  exact .lexeme hc ((lexeme_append_iff hown rest).2 h) (.done rest)

/-- a text that has tokens has the same lexemes before a blank -/
theorem reaches_of_scanFrom {position : Nat} {cs rest : List Char} {tokens : List Token}
    (h : scanFrom position cs = .ok tokens) (hr : Apart rest) : Reaches (cs ++ rest) (tokens.map (·.toLexeme)) rest := by
  fun_induction scanFrom position cs generalizing tokens with
  | case1 =>
    obtain rfl := Except.ok.inj h
    exact .done rest
  | case2 position c cs hc ih => exact .blank hc (ih h)
  | case3 => simp at h
  | case4 => simp at h
  | case5 position c cs hc l n hl stop later hlater =>
    rename_i ih
    obtain rfl := Except.ok.inj h
    obtain ⟨hle, hown⟩ := lexeme_take hl
    have hlength : (cs.take n).length = n := by simpa using hle
    rw [← List.take_append_drop n cs] at hl ⊢
    generalize cs.take n = body at *
    subst hlength
    have hends := ((lexeme_append_iff hown _).1 hl).append_apart hr
    rw [List.cons_append, List.append_assoc]
    exact .lexeme (by simpa using hc) ((lexeme_append_iff hown _).2 hends) (ih hlater)

/-- **What is found up to a place between two lexemes does not depend on what follows.** The part before it has just these
lexemes, and scanning the whole goes on from there with what follows. -/
theorem scanFrom_of_reaches {cs rest : List Char} {ls : List Lexeme} (h : Reaches cs ls rest) :
    ∃ before, cs = before ++ rest ∧ ∀ position, ∃ tokens : List Token, tokens.map (·.toLexeme) = ls ∧
      scanFrom position before = .ok tokens ∧
      scanFrom position cs = (scanFrom (position + byteSize before) rest).map (tokens ++ ·) := by
  induction h with
  | done rest =>
    refine ⟨[], rfl, fun position => ⟨[], rfl, scanFrom_nil position, ?_⟩⟩
    cases hrest : scanFrom position rest <;> simp [byteSize, hrest, Except.map]
  | @blank c cs rest ls hc _ ih =>
    obtain ⟨before, rfl, hscan⟩ := ih
    refine ⟨c :: before, rfl, fun position => ?_⟩
    obtain ⟨tokens, hls, hbefore, hwhole⟩ := hscan (position + c.utf8Size)
    refine ⟨tokens, hls, by rw [scanFrom_of_isBlank hc, hbefore], ?_⟩
    rw [scanFrom_of_isBlank hc, hwhole]
    simp [byteSize_cons, Nat.add_assoc]
  | @lexeme c body cs rest l ls hc hl _ ih =>
    obtain ⟨before, rfl, hscan⟩ := ih
    refine ⟨c :: (body ++ before), by simp, fun position => ?_⟩
    obtain ⟨tokens, hls, hbefore, hwhole⟩ := hscan (position + byteSize (c :: body))
    refine ⟨_ :: tokens, ?_, scanFrom_lexeme hc (lexeme_before hl) hbefore, ?_⟩
    · rw [List.map_cons, hls]
    · have hsize : position + byteSize (c :: body) + byteSize before = position + byteSize (c :: (body ++ before)) := by
        rw [Nat.add_assoc, ← byteSize_append, List.cons_append]
      rw [scanFrom_of_lexeme hc hl, hwhole, hsize]
      cases scanFrom (position + byteSize (c :: (body ++ before))) rest <;> rfl

/-! ## Places -/

/-- characters further on in a text have the tokens or the fault that they have at its start, but for the places -/
theorem scanFrom_shift (k position : Nat) (cs : List Char) :
    scanFrom (k + position) cs =
      match scanFrom position cs with
      | .ok tokens => .ok (tokens.map (shift k))
      | .error e => .error (e.shift k) := by
  fun_induction scanFrom position cs with
  | case1 position => rw [scanFrom_nil]; rfl
  | case2 position c rest hc ih => rw [scanFrom_of_isBlank hc, Nat.add_assoc, ih]
  | case3 position c rest hc cause hl =>
    rw [scanFrom.eq_def]
    simp only [hc, hl]
    rfl
  | case4 position c rest hc l n hl stop e hrest ih =>
    have hnext : scanFrom (k + (position + byteSize (c :: rest.take n))) (rest.drop n) = .error (e.shift k) := by
      rw [hrest] at ih
      exact ih
    rw [scanFrom.eq_def]
    simp [hc, hl, Nat.add_assoc, hnext]
  | case5 position c rest hc l n hl stop tokens hrest ih =>
    have hnext : scanFrom (k + (position + byteSize (c :: rest.take n))) (rest.drop n) =
        .ok (tokens.map (shift k)) := by
      rw [hrest] at ih
      exact ih
    rw [scanFrom.eq_def]
    simp [hc, hl, Nat.add_assoc, hnext, shift, stop]

/-- what scanning gives after some tokens, `k` bytes further on than alone -/
def continued (tokens : List Token) (k : Nat) : Except ScanError (List Token) → Except ScanError (List Token)
  | .ok more => .ok (tokens ++ more.map (shift k))
  | .error e => .error (e.shift k)

/-- where a text `s` ends between two lexemes, and blanks may follow, scanning goes on with `t` as if it were alone -/
theorem scan_of_reaches {s w t : String} {ls : List Lexeme}
    (h : Reaches (s.toList ++ (w.toList ++ t.toList)) ls (w.toList ++ t.toList))
    (hblank : ∀ c ∈ w.toList, isBlank c = true) :
    ∃ tokens, scan s = .ok tokens ∧ scan (s ++ w ++ t) = continued tokens (s ++ w).utf8ByteSize (scan t) := by
  obtain ⟨before, hsplit, hscan⟩ := scanFrom_of_reaches h
  obtain rfl := List.append_cancel_right hsplit
  obtain ⟨tokens, -, hbefore, hwhole⟩ := hscan 0
  refine ⟨tokens, hbefore, ?_⟩
  have hsize : (s ++ w).utf8ByteSize = byteSize s.toList + byteSize w.toList := by
    rw [utf8ByteSize_eq_byteSize, String.toList_append, byteSize_append]
  have hshift := scanFrom_shift (s ++ w).utf8ByteSize 0 t.toList
  rw [Nat.add_zero] at hshift
  rw [scan, String.toList_append, String.toList_append, List.append_assoc, hwhole, scanFrom_blanks hblank,
    Nat.zero_add, ← hsize, hshift, scan]
  cases scanFrom 0 t.toList <;> rfl

/-! ## Blanks between two tokens -/

/-- the text `s` ends between two tokens when `t` follows: scanning both together cuts no token there -/
def Boundary (s t : String) : Prop := ∃ ls, Reaches (s.toList ++ t.toList) ls t.toList

theorem le_length_of_byteSize_take_le {n : Nat} {before after : List Char} (hn : n ≤ (before ++ after).length)
    (h : byteSize ((before ++ after).take n) ≤ byteSize before) : n ≤ before.length := by
  by_contra hlt
  obtain ⟨k, rfl⟩ : ∃ k, n = before.length + (k + 1) := ⟨n - before.length - 1, by omega⟩
  cases after with
  | nil => simp at hn
  | cons c after =>
    have hpos := byteSize_cons_pos c (after.take k)
    rw [List.take_length_add_append, List.take_succ_cons, byteSize_append] at h
    omega

theorem reaches_of_spans {position : Nat} {before after : List Char} {tokens : List Token}
    (h : scanFrom position (before ++ after) = .ok tokens)
    (hspans : ∀ u ∈ tokens, u.stop ≤ position + byteSize before ∨ position + byteSize before ≤ u.start) :
    ∃ ls, Reaches (before ++ after) ls after := by
  generalize hcs : before ++ after = cs at h
  fun_induction scanFrom position cs generalizing before tokens with
  | case1 position =>
    obtain ⟨rfl, rfl⟩ := List.append_eq_nil_iff.1 hcs
    exact ⟨[], .done []⟩
  | case2 position c rest hc ih =>
    cases before with
    | nil => exact ⟨[], hcs ▸ .done after⟩
    | cons x before =>
      rw [List.cons_append, List.cons.injEq] at hcs
      obtain ⟨rfl, rfl⟩ := hcs
      rw [byteSize_cons, ← Nat.add_assoc] at hspans
      obtain ⟨ls, hls⟩ := ih hspans rfl h
      exact ⟨ls, .blank hc hls⟩
  | case3 => simp at h
  | case4 => simp at h
  | case5 position c rest hc l n hl stop later hlater =>
    rename_i ih
    obtain rfl := Except.ok.inj h
    cases before with
    | nil => exact ⟨[], hcs ▸ .done after⟩
    | cons x before =>
      rw [List.cons_append, List.cons.injEq] at hcs
      obtain ⟨rfl, rfl⟩ := hcs
      obtain ⟨hle, hown⟩ := lexeme_take hl
      -- the token has ended before the place, so what is left of the part before it goes on where the token has ended
      have hpos := x.utf8Size_pos
      have hn : n ≤ before.length := by
        have hstop := hspans _ List.mem_cons_self
        simp only [stop, byteSize_cons] at hstop
        exact le_length_of_byteSize_take_le hle (by omega)
      have htake : (before ++ after).take n = before.take n := List.take_append_of_le_length hn
      have hdrop : (before ++ after).drop n = before.drop n ++ after := List.drop_append_of_le_length hn
      have hend : stop + byteSize (before.drop n) = position + byteSize (x :: before) := by
        have hparts := congrArg byteSize (List.take_append_drop n before)
        rw [byteSize_append] at hparts
        simp only [stop, byteSize_cons, htake]
        omega
      have hlater : ∀ u ∈ later, u.stop ≤ stop + byteSize (before.drop n) ∨ stop + byteSize (before.drop n) ≤ u.start := by
        intro u hu
        rw [hend]
        exact hspans u (List.mem_cons_of_mem _ hu)
      obtain ⟨ls, hls⟩ := ih hlater hdrop.symm ‹_›
      rw [hdrop] at hls
      have hlength : (before.take n).length = n := by simpa using hn
      rw [← List.take_append_drop n before, List.append_assoc] at hl ⊢
      refine ⟨l :: ls, .lexeme (by simpa using hc) ?_ hls⟩
      rw [hlength]
      exact hl

/-- In a text that has tokens, the boundaries are the places that lie within no token. -/
theorem boundary_iff {s t : String} {tokens : List Token} (h : scan (s ++ t) = .ok tokens) :
    Boundary s t ↔ ∀ u ∈ tokens, u.stop ≤ s.utf8ByteSize ∨ s.utf8ByteSize ≤ u.start := by
  rw [scan, String.toList_append] at h
  rw [utf8ByteSize_eq_byteSize]
  constructor
  · rintro ⟨ls, hreaches⟩
    obtain ⟨before, hsplit, hscan⟩ := scanFrom_of_reaches hreaches
    obtain rfl := List.append_cancel_right hsplit
    obtain ⟨first, -, hbefore, hwhole⟩ := hscan 0
    rw [h, Nat.zero_add] at hwhole
    cases hrest : scanFrom (byteSize s.toList) t.toList with
    | error e =>
      rw [hrest] at hwhole
      cases hwhole
    | ok later =>
      rw [hrest] at hwhole
      obtain rfl : tokens = first ++ later := Except.ok.inj hwhole
      have hfirst : Tiling [] s.toList first := tiling_of_scanFrom hbefore
      have hlater := (tiling_of_scanFrom hrest).ordered.1
      intro u hu
      rcases List.mem_append.1 hu with hu | hu
      · have hwithin := (hfirst.standsIn u hu).within.2
        rw [List.nil_append, utf8ByteSize_ofList] at hwithin
        exact .inl hwithin
      · exact .inr (hlater u hu)
  · intro hspans
    exact reaches_of_spans h (by simpa using hspans)

/-- what scanning finds, but for the places: the lexemes, or why there are none -/
def findings : Except ScanError (List Token) → Except ScanError.Cause (List Lexeme)
  | .ok tokens => .ok (tokens.map (·.toLexeme))
  | .error e => .error e.cause

theorem findings_continued (tokens : List Token) (k k' : Nat) (found : Except ScanError (List Token)) :
    findings (continued tokens k found) = findings (continued tokens k' found) := by
  cases found with
  | error e => rfl
  | ok more => simp [continued, findings, shift]

/-- **Scanning distributes over blanks.** After a text that has tokens, and at least one blank, another text has the tokens
or the fault that it has alone, as many bytes further on as stand before it. So blanks between two tokens, or between the
tokens before a fault, change neither the lexemes nor the cause of the fault. In a text that has tokens they can stand
anywhere but within one of them. -/
theorem blanks_between_tokens {w : String} (hw : w ≠ "") (hblank : ∀ c ∈ w.toList, isBlank c = true) (s t : String) :
    (∀ tokens, scan s = .ok tokens →
      (∀ more, scan t = .ok more →
        scan (s ++ w ++ t) = .ok (tokens ++ more.map (shift (s ++ w).utf8ByteSize))) ∧
      ∀ e, scan t = .error e → scan (s ++ w ++ t) = .error (e.shift (s ++ w).utf8ByteSize)) ∧
    (Boundary s t → findings (scan (s ++ w ++ t)) = findings (scan (s ++ t))) ∧
    ∀ tokens, scan (s ++ t) = .ok tokens →
      (∀ u ∈ tokens, u.stop ≤ s.utf8ByteSize ∨ s.utf8ByteSize ≤ u.start) →
      findings (scan (s ++ w ++ t)) = .ok (tokens.map (·.toLexeme)) := by
  have hne : w.toList ≠ [] := by simpa using hw
  have hapart : Apart (w.toList ++ t.toList) := apart_append hblank hne _
  have hspaced : ∀ tokens, scan s = .ok tokens →
      scan (s ++ w ++ t) = continued tokens (s ++ w).utf8ByteSize (scan t) := by
    intro tokens hs
    obtain ⟨tokens', hs', hscan⟩ := scan_of_reaches (reaches_of_scanFrom hs hapart) hblank
    obtain rfl : tokens = tokens' := Except.ok.inj (hs.symm.trans hs')
    exact hscan
  have hkept : Boundary s t → findings (scan (s ++ w ++ t)) = findings (scan (s ++ t)) := by
    rintro ⟨ls, hreaches⟩
    obtain ⟨tokens, hs, hscan⟩ := scan_of_reaches (w := "") hreaches (by simp)
    rw [String.append_empty] at hscan
    rw [hspaced tokens hs, hscan]
    exact findings_continued tokens _ _ _
  refine ⟨fun tokens hs => ⟨fun more ht => ?_, fun e ht => ?_⟩, hkept, fun tokens hboth hspans => ?_⟩
  · rw [hspaced tokens hs, ht]
    rfl
  · rw [hspaced tokens hs, ht]
    rfl
  · rw [hkept ((boundary_iff hboth).2 hspans), hboth]
    rfl

/-- a blank of three bytes keeps `<` apart from `=>`, of which the `=` would belong to it; before a string that never
ends, which is no token, there is a boundary; and `<=` stays one token when the blank stands before it -/
theorem wide_blank_between :
    "\u2003" ≠ "" ∧ (∀ c ∈ "\u2003".toList, isBlank c = true) ∧
      scan "'é'<\u2003=> x" =
        .ok [⟨⟨.string, "é"⟩, 0, 4⟩, ⟨⟨.operator, "<"⟩, 4, 5⟩, ⟨⟨.arrow, "=>"⟩, 8, 10⟩, ⟨⟨.identifier, "x"⟩, 11, 12⟩] ∧
      scan "'é'<\u2003a 'b" = .error ⟨.unterminatedString, 10⟩ ∧
      findings (scan "a\u2003'b") = findings (scan "a'b") ∧
      findings (scan "a\u2003<=b") = .ok [⟨.identifier, "a"⟩, ⟨.operator, "<="⟩, ⟨.identifier, "b"⟩] := by
  have hw : "\u2003" ≠ "" := by decide
  have hblank : ∀ c ∈ "\u2003".toList, isBlank c = true := List.all_eq_true.1 rfl
  have hfirst : scan "'é'<" = .ok [⟨⟨.string, "é"⟩, 0, 4⟩, ⟨⟨.operator, "<"⟩, 4, 5⟩] := by with_unfolding_all rfl
  have hsecond : scan "=> x" = .ok [⟨⟨.arrow, "=>"⟩, 0, 2⟩, ⟨⟨.identifier, "x"⟩, 3, 4⟩] := by with_unfolding_all rfl
  have hfault : scan "a 'b" = .error ⟨.unterminatedString, 2⟩ := by with_unfolding_all rfl
  have hboundary : Boundary "a" "'b" := by
    have hl : Lexeme.Writable ⟨.identifier, "a"⟩ := .identifier 'a' [] (by decide) (by simp)
    have hends : Lexeme.EndsBefore ⟨.identifier, "a"⟩ "'b".toList := by simp [Lexeme.EndsBefore, continuesIdentifier]
    exact ⟨_, reaches_written hl hends⟩
  have hboth : scan "a<=b" = .ok [⟨⟨.identifier, "a"⟩, 0, 1⟩, ⟨⟨.operator, "<="⟩, 1, 3⟩, ⟨⟨.identifier, "b"⟩, 3, 4⟩] := by
    with_unfolding_all rfl
  refine ⟨hw, hblank, ?_, ?_, ?_, ?_⟩
  · exact ((blanks_between_tokens hw hblank _ _).1 _ hfirst).1 _ hsecond
  · exact ((blanks_between_tokens hw hblank _ _).1 _ hfirst).2 _ hfault
  · exact (blanks_between_tokens hw hblank _ _).2.1 hboundary
  · exact (blanks_between_tokens hw hblank "a" "<=b").2.2 _ hboth (by decide)

end Token

end Proviso
