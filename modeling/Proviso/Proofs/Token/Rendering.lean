/-
Scanning undoes writing.

`Lexeme.written` writes a lexeme, a string between quotes with a backslash before each quote and each backslash in it,
and `Writable` are the lexemes of the language. `lexeme_written` reads one of them back from what was written, whatever
stands apart after it, and takes all of it and no more; so the content of a string never ends it. `scan_laidOut` does so
for any number of lexemes with blanks between them, and tells the bytes that each one takes.
-/
import Proviso.Proofs.Token.Scanning

namespace Proviso

/-! ## Writing -/

/-- the content of a string as it stands between the quotes -/
def escaped : List Char → List Char
  | [] => []
  | c :: cs => if c = '\x27' ∨ c = '\\' then '\\' :: c :: escaped cs else c :: escaped cs

namespace Lexeme

/-- a lexeme as it is written -/
def written (l : Lexeme) : List Char :=
  match l.kind with
  | .string => '\x27' :: (escaped l.text.toList ++ ['\x27'])
  | _ => l.text.toList

/-- the lexemes with a fixed spelling -/
def symbols : List Lexeme :=
  [⟨.operator, "=="⟩, ⟨.operator, "!="⟩, ⟨.operator, "<="⟩, ⟨.operator, ">="⟩, ⟨.operator, "&&"⟩, ⟨.operator, "||"⟩,
    ⟨.operator, "<"⟩, ⟨.operator, ">"⟩, ⟨.operator, "!"⟩, ⟨.arrow, "=>"⟩, ⟨.dot, "."⟩, ⟨.comma, ","⟩,
    ⟨.paren, "("⟩, ⟨.paren, ")"⟩, ⟨.bracket, "["⟩, ⟨.bracket, "]"⟩]

/-- the lexemes of the language -/
inductive Writable : Lexeme → Prop where
  | identifier (c : Char) (cs : List Char) (start : Token.startsIdentifier c = true)
    (rest : ∀ x ∈ cs, Token.continuesIdentifier x = true) : Writable ⟨.identifier, String.ofList (c :: cs)⟩
  | whole (c : Char) (cs : List Char) (digits : ∀ x ∈ c :: cs, x.isDigit = true) :
    Writable ⟨.number, String.ofList (c :: cs)⟩
  | decimal (c : Char) (cs : List Char) (f : Char) (fs : List Char) (digits : ∀ x ∈ c :: cs, x.isDigit = true)
    (places : ∀ x ∈ f :: fs, x.isDigit = true) : Writable ⟨.number, String.ofList (c :: cs ++ '.' :: f :: fs)⟩
  | string (text : String) : Writable ⟨.string, text⟩
  | symbol (l : Lexeme) (fixed : l ∈ symbols) : Writable l

end Lexeme

/-- lexemes one after the other, each with the blanks that follow it -/
def laidOut (items : List (Lexeme × List Char)) : List Char := items.flatMap fun item => item.1.written ++ item.2

/-- Lexemes of the language, separated by blanks: nothing but blanks follows each of them, and at least one follows each
but the last. -/
structure LaidOut (items : List (Lexeme × List Char)) : Prop where
  writable : ∀ item ∈ items, item.1.Writable
  blank : ∀ item ∈ items, ∀ c ∈ item.2, Text.isBlank c = true
  apart : ∀ item ∈ items.dropLast, item.2 ≠ []

/-- The tokens of a layout that starts with the blanks `lead`. Each stands at the bytes where what is laid out before it
has ended and where it has ended itself. -/
def placed (lead : List Char) (items : List (Lexeme × List Char)) : List Token :=
  items.mapIdx fun i item =>
    { item.1 with
      start := byteSize (lead ++ laidOut (items.take i))
      stop := byteSize (lead ++ laidOut (items.take i) ++ item.1.written) }

namespace Token

open Text Lexeme

/-! ## Reading one lexeme back -/

theorem stringBody?_escaped (cs rest : List Char) :
    stringBody? (escaped cs ++ '\x27' :: rest) = some (cs, (escaped cs).length + 1) := by
  induction cs with
  | nil => simp [escaped, stringBody?]
  | cons c cs ih =>
    by_cases hquote : c = '\x27'
    · simp [escaped, hquote, stringBody?, ih]
    · by_cases hslash : c = '\\'
      · simp [escaped, hslash, stringBody?, ih]
      · simp [escaped, hquote, hslash, stringBody?, ih]

theorem lexeme_string (cs rest : List Char) :
    lexeme '\x27' ((escaped cs ++ ['\x27']) ++ rest) =
      .ok (⟨.string, String.ofList cs⟩, (escaped cs ++ ['\x27']).length) := by
  have hs : symbol? '\x27' ((escaped cs ++ ['\x27']) ++ rest) = none := symbol?_eq_none (by decide) _
  rw [lexeme, hs]
  simp [stringBody?_escaped]

theorem not_symbol_of_continuesIdentifier {c : Char} (h : continuesIdentifier c = true) : c ∉ symbolStarts := by
  intro hc
  have hall : symbolStarts.all (fun x => !continuesIdentifier x) = true := rfl
  have := List.all_eq_true.1 hall c hc
  simp [h] at this

theorem ne_quote_of_continuesIdentifier {c : Char} (h : continuesIdentifier c = true) : c ≠ '\x27' := by
  rintro rfl
  exact absurd h (by decide)

theorem lexeme_of_isDigit {c : Char} (hc : c.isDigit = true) (rest : List Char) :
    lexeme c rest = .ok (⟨.number, String.ofList (c :: numberBody rest)⟩, (numberBody rest).length) := by
  have hcont := continuesIdentifier_of_isDigit hc
  rw [lexeme, symbol?_eq_none (not_symbol_of_continuesIdentifier hcont)]
  simp [ne_quote_of_continuesIdentifier hcont, hc]

theorem lexeme_of_startsIdentifier {c : Char} (hc : startsIdentifier c = true) (rest : List Char) :
    lexeme c rest = .ok (⟨.identifier, String.ofList (c :: rest.takeWhile continuesIdentifier)⟩,
      (rest.takeWhile continuesIdentifier).length) := by
  have hcont := continuesIdentifier_of_startsIdentifier hc
  rw [lexeme, symbol?_eq_none (not_symbol_of_continuesIdentifier hcont)]
  simp [ne_quote_of_continuesIdentifier hcont, isDigit_eq_false_of_startsIdentifier hc, hc]

theorem lexeme_identifier {c : Char} {cs rest : List Char} (hc : startsIdentifier c = true)
    (hcs : ∀ x ∈ cs, continuesIdentifier x = true) (hr : Apart rest) :
    lexeme c (cs ++ rest) = .ok (⟨.identifier, String.ofList (c :: cs)⟩, cs.length) := by
  rw [lexeme_of_startsIdentifier hc, takeWhile_apart (fun _ h => h) hcs hr]

theorem lexeme_number {c : Char} {body rest : List Char} (hc : c.isDigit = true)
    (hb : numberBody (body ++ rest) = body) :
    lexeme c (body ++ rest) = .ok (⟨.number, String.ofList (c :: body)⟩, body.length) := by
  rw [lexeme_of_isDigit hc, hb]

/-- digits before the rest of a number belong to it -/
theorem numberBody_append {cs : List Char} (hcs : ∀ c ∈ cs, c.isDigit = true) (rest : List Char) :
    numberBody (cs ++ rest) = cs ++ numberBody rest := by
  simp only [numberBody, List.takeWhile_append_of_pos hcs, List.dropWhile_append_of_pos hcs]
  split
  · split
    · rw [List.append_assoc]
    · rfl
  · rfl

theorem numberBody_dot (rest : List Char) {f : Char} (hf : f.isDigit = true) :
    numberBody ('.' :: f :: rest) = '.' :: f :: rest.takeWhile Char.isDigit := by
  have hdot : ('.').isDigit = false := by decide
  simp [numberBody, hdot, hf]

theorem numberBody_whole {cs rest : List Char} (hcs : ∀ x ∈ cs, x.isDigit = true) (hr : Apart rest) :
    numberBody (cs ++ rest) = cs := by
  have hdot := hr.head?_ne (c := '.') (by decide)
  simp only [numberBody, takeWhile_apart (fun _ => continuesIdentifier_of_isDigit) hcs hr,
    dropWhile_apart (fun _ => continuesIdentifier_of_isDigit) hcs hr]
  split
  · simp at hdot
  · rfl

theorem numberBody_decimal {cs fs rest : List Char} {f : Char} (hcs : ∀ x ∈ cs, x.isDigit = true)
    (hf : ∀ x ∈ f :: fs, x.isDigit = true) (hr : Apart rest) :
    numberBody ((cs ++ '.' :: f :: fs) ++ rest) = cs ++ '.' :: f :: fs := by
  have hfs := takeWhile_apart (fun _ => continuesIdentifier_of_isDigit)
    (fun x hx => hf x (List.mem_cons_of_mem _ hx)) hr
  rw [List.append_assoc, List.cons_append, List.cons_append, numberBody_append hcs,
    numberBody_dot _ (hf f List.mem_cons_self), hfs]

theorem symbol?_written {l : Lexeme} (hl : l ∈ symbols) {rest : List Char} (hr : Apart rest) :
    ∃ c body, l.written = c :: body ∧ isBlank c = false ∧ symbol? c (body ++ rest) = some (l, body.length) := by
  -- of two spellings the longer one wins, so a symbol of one character needs that no `=` follows
  have heq : ∀ more, rest ≠ '=' :: more := fun more h => by simpa [h] using hr.head?_ne (c := '=') (by decide)
  simp only [symbols, List.mem_cons, List.not_mem_nil, or_false] at hl
  rcases hl with rfl | rfl | rfl | rfl | rfl | rfl | rfl | rfl | rfl | rfl | rfl | rfl | rfl | rfl | rfl | rfl
  · exact ⟨'=', ['='], rfl, rfl, rfl⟩
  · exact ⟨'!', ['='], rfl, rfl, rfl⟩
  · exact ⟨'<', ['='], rfl, rfl, rfl⟩
  · exact ⟨'>', ['='], rfl, rfl, rfl⟩
  · exact ⟨'&', ['&'], rfl, rfl, rfl⟩
  · exact ⟨'|', ['|'], rfl, rfl, rfl⟩
  · exact ⟨'<', [], rfl, rfl, by simp [symbol?]⟩
  · exact ⟨'>', [], rfl, rfl, by simp [symbol?]⟩
  · exact ⟨'!', [], rfl, rfl, by simp [symbol?]⟩
  · exact ⟨'=', ['>'], rfl, rfl, rfl⟩
  · exact ⟨'.', [], rfl, rfl, rfl⟩
  · exact ⟨',', [], rfl, rfl, rfl⟩
  · exact ⟨'(', [], rfl, rfl, rfl⟩
  · exact ⟨')', [], rfl, rfl, rfl⟩
  · exact ⟨'[', [], rfl, rfl, rfl⟩
  · exact ⟨']', [], rfl, rfl, rfl⟩

/-- **A lexeme is read back from what was written.** It does not start with a blank, and before anything that stands
apart it takes just the characters that were written. -/
theorem lexeme_written {l : Lexeme} (hl : l.Writable) {rest : List Char} (hr : Apart rest) :
    ∃ c body, l.written = c :: body ∧ isBlank c = false ∧ lexeme c (body ++ rest) = .ok (l, body.length) := by
  cases hl with
  | identifier c cs hc hcs =>
    exact ⟨c, cs, by simp [written],
      isBlank_eq_false_of_continuesIdentifier (continuesIdentifier_of_startsIdentifier hc), lexeme_identifier hc hcs hr⟩
  | whole c cs hcs =>
    have hc := hcs c List.mem_cons_self
    exact ⟨c, cs, by simp [written], isBlank_eq_false_of_continuesIdentifier (continuesIdentifier_of_isDigit hc),
      lexeme_number hc (numberBody_whole (fun x hx => hcs x (List.mem_cons_of_mem _ hx)) hr)⟩
  | decimal c cs f fs hcs hfs =>
    have hc := hcs c List.mem_cons_self
    exact ⟨c, cs ++ '.' :: f :: fs, by simp [written],
      isBlank_eq_false_of_continuesIdentifier (continuesIdentifier_of_isDigit hc),
      lexeme_number hc (numberBody_decimal (fun x hx => hcs x (List.mem_cons_of_mem _ hx)) hfs hr)⟩
  | string text =>
    refine ⟨'\x27', escaped text.toList ++ ['\x27'], rfl, by decide, ?_⟩
    rw [lexeme_string, String.ofList_toList]
  | symbol _ hl =>
    obtain ⟨c, body, hw, hc, hs⟩ := symbol?_written hl hr
    exact ⟨c, body, hw, hc, by rw [lexeme, hs]⟩

/-! ## Reading a layout back -/

theorem laidOut_cons (item : Lexeme × List Char) (items : List (Lexeme × List Char)) :
    laidOut (item :: items) = item.1.written ++ item.2 ++ laidOut items := by
  simp [laidOut]

/-- after the first lexeme and its blanks the others stand as in a layout of their own -/
theorem placed_cons (lead : List Char) (item : Lexeme × List Char) (items : List (Lexeme × List Char)) :
    placed lead (item :: items) =
      { item.1 with start := byteSize lead, stop := byteSize (lead ++ item.1.written) } ::
        placed (lead ++ item.1.written ++ item.2) items := by
  simp [placed, List.mapIdx_cons, laidOut]

theorem scanFrom_laidOut {items : List (Lexeme × List Char)} (h : LaidOut items) (lead : List Char) :
    scanFrom (byteSize lead) (laidOut items) = .ok (placed lead items) := by
  induction items generalizing lead with
  | nil => exact scanFrom_nil _
  | cons item items ih =>
    obtain ⟨l, gap⟩ := item
    have hblank := h.blank _ List.mem_cons_self
    have hrest : LaidOut items := by
      refine ⟨fun i hi => h.writable i (List.mem_cons_of_mem _ hi), fun i hi => h.blank i (List.mem_cons_of_mem _ hi),
        fun i hi => h.apart i ?_⟩
      cases items with
      | nil => simp at hi
      | cons j items => exact List.mem_cons_of_mem _ hi
    have hapart : Apart (gap ++ laidOut items) := by
      cases items with
      | nil =>
        intro c hc
        simp only [laidOut, List.flatMap_nil, List.append_nil] at hc
        exact hblank c (List.mem_of_mem_head? hc)
      | cons j items => exact apart_append hblank (h.apart (l, gap) (by simp)) _
    obtain ⟨c, body, hw, hc, hl⟩ := lexeme_written (h.writable _ List.mem_cons_self) hapart
    -- what follows stands where the lexeme and its blanks have ended
    have hnext : scanFrom (byteSize lead + byteSize (c :: body)) (gap ++ laidOut items) =
        .ok (placed (lead ++ (c :: body) ++ gap) items) := by
      rw [scanFrom_blanks hblank, ← byteSize_append, ← byteSize_append]
      exact ih hrest _
    rw [laidOut_cons, placed_cons]
    simp only [hw, List.cons_append, List.append_assoc, byteSize_append]
    rw [scanFrom_lexeme hc hl hnext]
    simp only [List.cons_append, List.append_assoc]

/-- **Scanning undoes writing.** Lexemes of the language, with at least one blank between any two and any blanks before
the first and after the last, are scanned into just these lexemes in this order, each at the bytes that it takes. -/
theorem scan_laidOut {items : List (Lexeme × List Char)} (h : LaidOut items) {lead : List Char}
    (hlead : ∀ c ∈ lead, isBlank c = true) :
    scan (String.ofList (lead ++ laidOut items)) = .ok (placed lead items) := by
  rw [scan, String.toList_ofList, scanFrom_blanks hlead, Nat.zero_add]
  exact scanFrom_laidOut h lead

/-- a quote, a backslash and a character of two bytes within a string, and a decimal after a blank of two bytes -/
theorem scan_quoted_comparison :
    let items : List (Lexeme × List Char) :=
      [(⟨.string, "é'\\"⟩, [' ', '\n']), (⟨.operator, "<"⟩, ['\u00a0']), (⟨.number, "1.5"⟩, [])]
    LaidOut items ∧ (∀ c ∈ [' '], isBlank c = true) ∧
      scan " 'é\\'\\\\' \n<\u00a01.5" =
        .ok [⟨⟨.string, "é'\\"⟩, 1, 9⟩, ⟨⟨.operator, "<"⟩, 11, 12⟩, ⟨⟨.number, "1.5"⟩, 14, 17⟩] := by
  intro items
  have h : LaidOut items := by
    refine ⟨fun item hi => ?_, by simp [items, isBlank], by simp [items]⟩
    simp only [items, List.mem_cons, List.not_mem_nil, or_false] at hi
    rcases hi with rfl | rfl | rfl
    · exact .string _
    · exact .symbol _ (by decide)
    · exact .decimal '1' [] '5' [] (List.all_eq_true.1 rfl) (List.all_eq_true.1 rfl)
  have hlead : ∀ c ∈ [' '], isBlank c = true := List.all_eq_true.1 rfl
  have htext : String.ofList ([' '] ++ laidOut items) = " 'é\\'\\\\' \n<\u00a01.5" := by decide
  have hplaced : placed [' '] items =
      [⟨⟨.string, "é'\\"⟩, 1, 9⟩, ⟨⟨.operator, "<"⟩, 11, 12⟩, ⟨⟨.number, "1.5"⟩, 14, 17⟩] := by decide
  rw [← htext, ← hplaced]
  exact ⟨h, hlead, scan_laidOut h hlead⟩

end Token

end Proviso
