/-
Numbers in a text.

Scanning and reading each have a notion of a number of their own, and reading knows spellings that scanning never finds:
signs, underscores, exponents, a dot before or after all digits. Here the two meet. A number that scanning finds is digits, or
digits on both sides of a dot, and both are read (`numberRead_of_digits`). Where it stands in the text it ends, so neither a
digit follows it nor, after digits alone, a dot with a digit; this is so of every token that scanning comes to, also before a
fault (`ScannedFrom.foundIn`, `FoundIn.numberIn`). A refusal for a number needs a token that is not read, and so no text has
one (`numbers_of_text_read`), though tokens made up by hand may.
-/
import Proviso.Proofs.Decimal.Fraction
import Proviso.Proofs.Grammar.Place
import Proviso.Proofs.Grammar.Text
import Proviso.Proofs.Token.Fault

namespace Proviso

/-! ## Numbers that are read -/

/-- How the text of a number is read: digits as the integer that they denote, and digits on both sides of a dot as the double
nearest to what they denote. -/
inductive Reading.NumberRead (text : String) : Prop where
  | integer {m : Nat} (digits : Decimal.Numeral m text.toList) (read : number? text = some (.int m))
  | double {f : Decimal.Fraction} (unsigned : f.neg = false) (places : f.places ≠ [])
    (digits : text.toList = f.whole ++ '.' :: f.places) (read : number? text = some (.float f.double))

namespace Grammar

open Reading

/-- digits on both sides of a dot are read as the double nearest to what they denote -/
theorem number?_of_fraction {f : Decimal.Fraction} (h : f.places ≠ []) :
    number? (String.ofList f.text) = some (.float f.double) := by
  have hdot : f.text.contains '.' = true := by
    rw [List.contains_eq_mem, decide_eq_true_eq, Decimal.Fraction.text, Decimal.Fraction.tail, if_neg h]
    split <;> simp
  rw [number?, String.toList_ofList, hdot, Decimal.double?_text]
  rfl

end Grammar

namespace Token

open Text Reading

theorem kind_ne_number_of_symbol? {c : Char} {rest : List Char} {l : Lexeme} {n : Nat}
    (h : symbol? c rest = some (l, n)) : l.kind ≠ .number := by
  unfold symbol? at h
  split at h
  case h_17 => cases h
  all_goals
    obtain ⟨rfl, -⟩ := Prod.mk.inj (Option.some.inj h)
    decide

/-- a number starts with a digit, and all of its characters belong to it -/
theorem number_of_lexeme {c : Char} {body : List Char} {l : Lexeme} (own : lexeme c body = .ok (l, body.length))
    (hl : l.kind = .number) :
    c.isDigit = true ∧ numberBody body = body ∧ l = ⟨.number, String.ofList (c :: body)⟩ := by
  rcases lexeme_cases own with hsymbol | ⟨-, cs, -, rfl⟩ | ⟨hdigit, rfl, hlength⟩ | ⟨-, rfl, -⟩
  · exact absurd hl (kind_ne_number_of_symbol? hsymbol)
  · cases hl
  · have hbody := numberBody_eq_self hlength
    exact ⟨hdigit, hbody, by rw [hbody]⟩
  · cases hl

/-- **The numbers that scanning finds are read.** -/
theorem numberRead_of_digits {c : Char} {body : List Char} (hc : c.isDigit = true) (hbody : numberBody body = body) :
    NumberRead (String.ofList (c :: body)) := by
  have hdigits : ∀ {cs : List Char}, (∀ x ∈ cs, x.isDigit = true) → ∀ x ∈ c :: cs, x.isDigit = true :=
    fun hcs => List.forall_mem_cons.2 ⟨hc, hcs⟩
  rcases number_forms hbody with hwhole | ⟨cs, d, ds, rfl, hcs, hds⟩
  · have hnumeral := Decimal.numeral_ofDigits (List.cons_ne_nil c body) (hdigits hwhole)
    exact .integer (by rwa [String.toList_ofList]) (Grammar.number?_of_numeral hnumeral)
  · let f : Decimal.Fraction := {
      neg := false
      whole := c :: cs
      places := d :: ds
      nonempty := List.cons_ne_nil c cs
      digits := List.forall_mem_append.2 ⟨hdigits hcs, hds⟩ }
    have hplaces : f.places ≠ [] := List.cons_ne_nil d ds
    have htext : f.text = c :: (cs ++ '.' :: d :: ds) := rfl
    have hread := Grammar.number?_of_fraction hplaces
    rw [htext] at hread
    exact .double (f := f) rfl hplaces String.toList_ofList hread

/-! ## Tokens where they stand -/

/-- The token stands in the characters: from where it starts on, its lexeme is found in them first. -/
def FoundIn (t : Token) (cs : List Char) : Prop :=
  ∃ (before : List Char) (c : Char) (body after : List Char), cs = before ++ c :: (body ++ after) ∧
    lexeme c (body ++ after) = .ok (t.toLexeme, body.length) ∧ t.start = byteSize before ∧
    t.stop = byteSize (before ++ c :: body)

/-- what scanning finds up to a place between two lexemes is in the whole what it is in the part before that place -/
theorem Reaches.foundIn {cs rest : List Char} {ls : List Lexeme} (h : Reaches cs ls rest) :
    ∃ before, cs = before ++ rest ∧ ∀ (lead : List Char) (tokens : List Token),
      scanFrom (byteSize lead) before = .ok tokens → ∀ t ∈ tokens, t.FoundIn (lead ++ cs) := by
  induction h with
  | done rest =>
    refine ⟨[], rfl, fun lead tokens hscan => ?_⟩
    rw [scanFrom_nil] at hscan
    obtain rfl := Except.ok.inj hscan
    simp
  | @blank c cs rest ls hc _ ih =>
    obtain ⟨before, rfl, hfound⟩ := ih
    refine ⟨c :: before, rfl, fun lead tokens hscan t ht => ?_⟩
    rw [scanFrom_of_isBlank hc] at hscan
    have hlead : byteSize lead + c.utf8Size = byteSize (lead ++ [c]) := by simp [byteSize]
    rw [hlead] at hscan
    simpa using hfound (lead ++ [c]) tokens hscan t ht
  | @lexeme c body cs rest l ls hc hl _ ih =>
    obtain ⟨before, rfl, hfound⟩ := ih
    refine ⟨c :: (body ++ before), by simp, fun lead tokens hscan t ht => ?_⟩
    rw [scanFrom_of_lexeme hc (lexeme_before hl), ← byteSize_append] at hscan
    cases hlater : scanFrom (byteSize (lead ++ c :: body)) before with
    | error e =>
      rw [hlater] at hscan
      cases hscan
    | ok later =>
      rw [hlater] at hscan
      obtain rfl := Except.ok.inj hscan
      rcases List.mem_cons.1 ht with rfl | ht
      · exact ⟨lead, c, body, before ++ rest, rfl, hl, rfl, rfl⟩
      · simpa using hfound (lead ++ c :: body) later hlater t ht

/-- The token is one that scanning comes to in the text. When the text is at fault, these are the tokens of what stands before
the fault. -/
inductive ScannedFrom (text : String) (t : Token) : Prop where
  | whole {tokens : List Token} (scanned : scan text = .ok tokens) (mem : t ∈ tokens)
  | beforeFault {e : ScanError} {tokens : List Token} (fault : scan text = .error e)
    (scanned : scan (slice text 0 e.position) = .ok tokens) (mem : t ∈ tokens)

/-- every token that scanning comes to stands in the text -/
theorem ScannedFrom.foundIn {text : String} {t : Token} (h : t.ScannedFrom text) : t.FoundIn text.toList := by
  cases h with
  | whole hscan ht =>
    obtain ⟨before, hsplit, hfound⟩ := (reaches_of_scanFrom hscan apart_nil).foundIn
    rw [List.append_nil, List.append_nil] at hsplit
    subst hsplit
    have hin := hfound [] _ hscan t ht
    rwa [List.nil_append, List.append_nil] at hin
  | @beforeFault e tokens hfault hscan ht =>
    obtain ⟨before, c, rest, ls, htext, hposition, hreaches, -, -⟩ := reaches_of_fault hfault
    obtain ⟨before', hsplit, hfound⟩ := hreaches.foundIn
    obtain rfl : before = before' := List.append_cancel_right (htext.symm.trans hsplit)
    have hfirst : slice text 0 e.position = String.ofList before := by
      rw [hposition, Nat.zero_add, ← String.ofList_toList (s := text), htext]
      exact slice_first before (c :: rest)
    rw [hfirst, scan, String.toList_ofList] at hscan
    exact hfound [] tokens hscan t ht

/-! ## Numbers where they stand -/

/-- A number token in its text: its bytes are its text, which is read, and after it neither a digit stands nor, when it is
digits only, a dot with a digit. -/
structure NumberIn (text : String) (t : Token) : Prop where
  source : slice text t.start t.stop = t.text
  read : NumberRead t.text
  no_digit : ∀ c ∈ (slice text t.stop text.utf8ByteSize).toList.head?, c.isDigit = false
  no_places : (∀ c ∈ t.text.toList, c.isDigit = true) →
    ∀ d more, (slice text t.stop text.utf8ByteSize).toList = '.' :: d :: more → d.isDigit = false

theorem FoundIn.numberIn {text : String} {t : Token} (h : t.FoundIn text.toList) (ht : t.kind = .number) :
    t.NumberIn text := by
  obtain ⟨before, c, body, after, htext, hl, hstart, hstop⟩ := h
  obtain ⟨hc, hbody, hlexeme⟩ := number_of_lexeme (lexeme_alone hl) ht
  have hchars : t.text = String.ofList (c :: body) := by rw [hlexeme]
  obtain rfl : text = String.ofList (before ++ c :: body ++ after) := by
    rw [← String.ofList_toList (s := text), htext]
    simp
  have hafter : slice (String.ofList (before ++ c :: body ++ after)) t.stop
      (String.ofList (before ++ c :: body ++ after)).utf8ByteSize = String.ofList after := by
    rw [utf8ByteSize_ofList, hstop]
    exact slice_last (before ++ c :: body) after
  have hends := (lexeme_append_iff (lexeme_alone hl) after).1 hl
  rw [hlexeme] at hends
  obtain ⟨hdigit, hdot⟩ := hends
  refine { source := ?_, read := ?_, no_digit := ?_, no_places := ?_ }
  · rw [hstart, hstop, hchars]
    exact slice_append before (c :: body) after
  · rw [hchars]
    exact numberRead_of_digits hc hbody
  · rw [hafter, String.toList_ofList]
    exact hdigit
  · rw [hafter, hchars, String.toList_ofList, String.toList_ofList]
    intro hall
    refine hdot.resolve_left fun hmem => ?_
    rw [String.toList_ofList] at hmem
    exact absurd (hall '.' hmem) (by decide)

end Token

/-! ## No text is refused for a number -/

namespace Grammar

open Reading Token

/-- the message of a refusal that starts as that for numbers is one -/
theorem invalidNumber_of_message {e : SyntaxError} (h : "Invalid number".toList <+: e.message.toList) :
    ∃ text position, e = .parse ⟨.invalidNumber text, position⟩ := by
  cases e with
  | scan e =>
    obtain ⟨cause, position⟩ := e
    cases cause <;> simp [SyntaxError.message, ScanError.message] at h
  | parse e =>
    obtain ⟨cause, position⟩ := e
    cases cause with
    | invalidNumber text => exact ⟨text, position, rfl⟩
    | _ => simp [SyntaxError.message, ParseError.message] at h

/-- a text that is refused for a number has a token of that number, and it is not read -/
theorem exists_unread_of_invalidNumber {text number : String} {position : Nat}
    (h : Expr.ofText? text = .error (.parse ⟨.invalidNumber number, position⟩)) :
    ∃ t : Token, t.ScannedFrom text ∧ t.toLexeme = ⟨.number, number⟩ ∧ number? number = none := by
  unfold Expr.ofText? at h
  split at h
  · cases h
  · next tokens hscan =>
    split at h
    · next hrefused =>
      obtain rfl := SyntaxError.parse.inj (Except.error.inj h)
      obtain ⟨i, -, hhead, hunread⟩ := located_of_ofTokens? hrefused
      obtain ⟨t, ht, hlexeme⟩ := List.mem_map.1 (List.mem_of_mem_head? hhead)
      exact ⟨t, .whole hscan (List.mem_of_mem_drop ht), hlexeme, hunread⟩
    · cases h

/-- **Every number in a text is read.** No text is refused for a number. Each number token that scanning comes to, be it in a
text that is at fault further on, is digits, read as the integer that they denote, or digits on both sides of a dot, read as a
double; and in the text no digit follows it, nor, after digits alone, a dot with a digit. -/
theorem numbers_of_text_read (text : String) :
    (∀ e, Expr.ofText? text = .error e → ¬ "Invalid number".toList <+: e.message.toList) ∧
      ∀ t : Token, t.ScannedFrom text → t.kind = .number → t.NumberIn text := by
  have hread : ∀ t : Token, t.ScannedFrom text → t.kind = .number → t.NumberIn text :=
    fun t ht hkind => ht.foundIn.numberIn hkind
  refine ⟨fun e he hmessage => ?_, hread⟩
  obtain ⟨number, position, rfl⟩ := invalidNumber_of_message hmessage
  obtain ⟨t, ht, hlexeme, hunread⟩ := exists_unread_of_invalidNumber he
  have hnumber := (hread t ht (by rw [hlexeme])).read
  rw [hlexeme] at hnumber
  cases hnumber with
  | integer _ hsome | double _ _ _ hsome =>
    rw [hunread] at hsome
    cases hsome

/-- a decimal before a dot and a digit, an integer with zeros in front before a dot and a letter, in a text that is refused for
another reason; and an integer before a dot and a string that never ends -/
theorem numbers_before_dots :
    let text := "1.5.2 < 007.x"
    let refusal : SyntaxError := .parse ⟨.noPropertyName, 4⟩
    let decimal : Token := ⟨⟨.number, "1.5"⟩, 0, 3⟩
    let whole : Token := ⟨⟨.number, "007"⟩, 8, 11⟩
    let first : Token := ⟨⟨.number, "3"⟩, 0, 1⟩
    (Expr.ofText? text = .error refusal ∧ ¬ "Invalid number".toList <+: refusal.message.toList) ∧
      (decimal.ScannedFrom text ∧ decimal.kind = .number ∧ decimal.NumberIn text) ∧
      (whole.ScannedFrom text ∧ whole.kind = .number ∧ whole.NumberIn text) ∧
      first.ScannedFrom "3.'" ∧ first.kind = .number ∧ first.NumberIn "3.'" := by
  intro text refusal decimal whole first
  have hrefused : Expr.ofText? text = .error refusal := by decide +kernel
  have hscan : scan text = .ok [decimal, ⟨⟨.dot, "."⟩, 3, 4⟩, ⟨⟨.number, "2"⟩, 4, 5⟩, ⟨⟨.operator, "<"⟩, 6, 7⟩, whole,
      ⟨⟨.dot, "."⟩, 11, 12⟩, ⟨⟨.identifier, "x"⟩, 12, 13⟩] := by
    decide +kernel
  have hfault : scan "3.'" = .error ⟨.unterminatedString, 2⟩ := by decide +kernel
  have hbefore : scan (slice "3.'" 0 2) = .ok [first, ⟨⟨.dot, "."⟩, 1, 2⟩] := by decide +kernel
  have hdecimal : decimal.ScannedFrom text := .whole hscan (by simp)
  have hwhole : whole.ScannedFrom text := .whole hscan (by simp)
  have hfirst : first.ScannedFrom "3.'" := .beforeFault hfault hbefore (by simp)
  obtain ⟨hnever, hread⟩ := numbers_of_text_read text
  exact ⟨⟨hrefused, hnever refusal hrefused⟩, ⟨hdecimal, rfl, hread decimal hdecimal rfl⟩,
    ⟨hwhole, rfl, hread whole hwhole rfl⟩, hfirst, rfl, (numbers_of_text_read "3.'").2 first hfirst rfl⟩

end Grammar

end Proviso
