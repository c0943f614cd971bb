/-
Where a text that has no tokens is at fault.

Scanning goes over whole lexemes and blanks up to the fault and stops there (`reaches_of_fault`), so what stands before the
fault has tokens, and what stands from it on is at fault in its first character. Nothing that follows this character matters
to the fault unless it completes a lexeme: every first part of a text that starts no lexeme starts none either
(`lexeme_of_append`). A quote is at fault when no string closes after it (`stringBody?_isSome_iff`), and any other character
when it starts nothing. `fault_localised` puts this together.
-/
import Proviso.Proofs.Token.Spacing

namespace Proviso

namespace Token

open Text

/-! ## Strings that close -/

/-- what stands between the quotes of a string: no quote and no backslash, but after a backslash any character -/
inductive StringContent : List Char → Prop where
  | empty : StringContent []
  | plain {c : Char} {cs : List Char} (no_quote : c ≠ '\x27') (no_slash : c ≠ '\\') (more : StringContent cs) :
    StringContent (c :: cs)
  | escaped {c : Char} {cs : List Char} (more : StringContent cs) : StringContent ('\\' :: c :: cs)

/-- a string with both of its quotes -/
def ClosedString (cs : List Char) : Prop := ∃ content, StringContent content ∧ cs = '\x27' :: (content ++ ['\x27'])

theorem stringBody?_plain {c : Char} (hquote : c ≠ '\x27') (hslash : c ≠ '\\') (rest : List Char) :
    stringBody? (c :: rest) = (stringBody? rest).map fun (cs, n) => (c :: cs, n + 1) := by
  rw [stringBody?.eq_5]
  · exact hquote
  · intro tail hc
    exact absurd hc hslash
  · intro tail hc
    exact absurd hc hslash

theorem StringContent.isSome {content : List Char} (h : StringContent content) (rest : List Char) :
    (stringBody? (content ++ '\x27' :: rest)).isSome = true := by
  induction h with
  | empty => simp [stringBody?]
  | plain hquote hslash _ ih =>
    rw [List.cons_append, stringBody?_plain hquote hslash, Option.isSome_map]
    exact ih
  | @escaped c cs _ ih =>
    by_cases hquote : c = '\x27'
    · subst hquote
      simpa [stringBody?] using ih
    by_cases hslash : c = '\\'
    · subst hslash
      simpa [stringBody?] using ih
    -- a backslash that escapes nothing, and the character after it by itself
    have hlone : stringBody? ('\\' :: c :: (cs ++ '\x27' :: rest)) =
        (stringBody? (c :: (cs ++ '\x27' :: rest))).map fun (cs, n) => ('\\' :: cs, n + 1) := by
      rw [stringBody?.eq_5]
      · decide
      · intro tail _ htail
        exact hquote (List.cons.inj htail).1
      · intro tail _ htail
        exact hslash (List.cons.inj htail).1
    rw [List.cons_append, List.cons_append, hlone, Option.isSome_map, stringBody?_plain hquote hslash, Option.isSome_map]
    exact ih

theorem exists_stringContent {rest : List Char} (h : (stringBody? rest).isSome = true) :
    ∃ content after, StringContent content ∧ rest = content ++ '\x27' :: after := by
  fun_induction stringBody? rest with
  | case1 => cases h
  | case2 rest => exact ⟨[], rest, .empty, rfl⟩
  | case3 rest ih | case4 rest ih =>
    rw [Option.isSome_map] at h
    obtain ⟨content, after, hcontent, rfl⟩ := ih h
    exact ⟨_, after, .escaped hcontent, rfl⟩
  | case5 c rest hquote hescaped hslash ih =>
    rw [Option.isSome_map] at h
    obtain ⟨content, after, hcontent, rfl⟩ := ih h
    by_cases hc : c = '\\'
    · subst hc
      -- the character after the backslash is none that it escapes, so it is in the content as it stands
      cases hcontent with
      | empty => exact absurd rfl (hescaped after rfl)
      | plain _ _ hmore => exact ⟨_, after, .escaped hmore, rfl⟩
      | escaped hmore => exact absurd rfl (hslash _ rfl)
    · exact ⟨c :: content, after, .plain hquote hc hcontent, rfl⟩

/-- a string closes when its content is followed by a quote -/
theorem stringBody?_isSome_iff (rest : List Char) :
    (stringBody? rest).isSome = true ↔ ∃ content after, StringContent content ∧ rest = content ++ '\x27' :: after := by
  constructor
  · exact exists_stringContent
  · intro h
    obtain ⟨content, after, hcontent, rfl⟩ := h
    exact hcontent.isSome after

/-! ## Characters that start nothing -/

/-- the two faults: a quote after which no string closes, and another character that starts nothing -/
theorem lexeme_error {c : Char} {rest : List Char} {cause : ScanError.Cause} (h : lexeme c rest = .error cause) :
    c = '\x27' ∧ stringBody? rest = none ∧ cause = .unterminatedString ∨ c ≠ '\x27' ∧ cause = .unexpected c := by
  unfold lexeme at h
  split at h
  · cases h
  · split at h
    · next hquote =>
      split at h
      · cases h
      · next hbody => exact .inl ⟨hquote, hbody, (Except.error.inj h).symm⟩
    · next hquote =>
      split at h
      · cases h
      · split at h
        · cases h
        · exact .inr ⟨hquote, (Except.error.inj h).symm⟩

/-- more characters may make a longer symbol of one, but leave one -/
theorem symbol?_append_isSome {c : Char} {body : List Char} (h : (symbol? c body).isSome = true) (rest : List Char) :
    (symbol? c (body ++ rest)).isSome = true := by
  unfold symbol? at h
  split at h
  case h_17 => cases h
  case h_8 | h_9 | h_10 =>
    cases body ++ rest with
    | nil => rfl
    | cons d more => by_cases hd : d = '=' <;> simp [symbol?, hd]
  all_goals simp [symbol?]

/-- what starts a lexeme starts one whatever follows -/
theorem lexeme_append {c : Char} {body : List Char} {l : Lexeme} {n : Nat} (h : lexeme c body = .ok (l, n))
    (rest : List Char) : ∃ found, lexeme c (body ++ rest) = .ok found := by
  rcases lexeme_cases h with hsymbol | hstring | hnumber | hword
  · have hsome := symbol?_append_isSome (Option.isSome_of_eq_some hsymbol) rest
    obtain ⟨found, hfound⟩ := Option.isSome_iff_exists.1 hsome
    exact ⟨found, by rw [lexeme, hfound]⟩
  · obtain ⟨rfl, cs, hbody, -⟩ := hstring
    refine ⟨(⟨.string, String.ofList cs⟩, n), ?_⟩
    rw [lexeme, symbol?_eq_none (by decide)]
    simp [stringBody?_append hbody rest]
  · exact ⟨_, lexeme_of_isDigit hnumber.1 _⟩
  · exact ⟨_, lexeme_of_startsIdentifier hword.1 _⟩

/-- a fault is one for every first part of what it is in -/
theorem lexeme_of_append {c : Char} {body rest : List Char} {cause : ScanError.Cause}
    (h : lexeme c (body ++ rest) = .error cause) : lexeme c body = .error cause := by
  cases hown : lexeme c body with
  | ok found =>
    obtain ⟨found', hfound⟩ := lexeme_append hown rest
    rw [h] at hfound
    cases hfound
  | error cause' =>
    rcases lexeme_error h with ⟨hquote, -, hcause⟩ | ⟨hquote, hcause⟩
    · rcases lexeme_error hown with ⟨-, -, hcause'⟩ | ⟨hother, -⟩
      · rw [hcause, hcause']
      · exact absurd hquote hother
    · rcases lexeme_error hown with ⟨hother, -, -⟩ | ⟨-, hcause'⟩
      · exact absurd hother hquote
      · rw [hcause, hcause']

/-! ## The fault of a text -/

theorem scanFrom_of_fault {c : Char} {rest : List Char} {cause : ScanError.Cause} (hc : isBlank c = false)
    (h : lexeme c rest = .error cause) (position : Nat) :
    scanFrom position (c :: rest) = .error ⟨cause, position⟩ := by
  rw [scanFrom.eq_def]
  simp [hc, h]

/-- **Scanning stops between two lexemes, at a character that starts none.** -/
theorem reaches_of_fault {position : Nat} {cs : List Char} {e : ScanError} (h : scanFrom position cs = .error e) :
    ∃ before c rest ls, cs = before ++ c :: rest ∧ e.position = position + byteSize before ∧
      Reaches cs ls (c :: rest) ∧ isBlank c = false ∧ lexeme c rest = .error e.cause := by
  fun_induction scanFrom position cs with
  | case1 => cases h
  | case2 position c cs hc ih =>
    obtain ⟨before, d, rest, ls, rfl, hposition, hreaches, hd, hfault⟩ := ih h
    refine ⟨c :: before, d, rest, ls, rfl, ?_, .blank hc hreaches, hd, hfault⟩
    rw [hposition, byteSize_cons]
    omega
  | case3 position c cs hc cause hl =>
    obtain rfl := Except.error.inj h
    exact ⟨[], c, cs, [], rfl, rfl, .done _, by simpa using hc, hl⟩
  | case4 position c cs hc l n hl stop e' hlater ih =>
    obtain rfl := Except.error.inj h
    obtain ⟨before, d, rest, ls, hdrop, hposition, hreaches, hd, hfault⟩ := ih hlater
    obtain ⟨hle, -⟩ := lexeme_take hl
    have hlength : (cs.take n).length = n := by simpa using hle
    have hcs : cs = cs.take n ++ cs.drop n := (List.take_append_drop n cs).symm
    refine ⟨c :: (cs.take n ++ before), d, rest, l :: ls, ?_, ?_, ?_, hd, hfault⟩
    · rw [List.cons_append, List.append_assoc, ← hdrop, ← hcs]
    · rw [hposition, ← List.cons_append, byteSize_append]
      omega
    · rw [hcs]
      refine .lexeme (by simpa using hc) ?_ hreaches
      rw [← hcs, hlength]
      exact hl
  | case5 => cases h

/-- What the fault says of the character that it stands at, and of those after it: a string that never ends starts at a
quote, and no first part of it is a closed string; any other fault names its character, which is no blank, and no first
part from there on has tokens. -/
structure Blames (e : ScanError) (c : Char) (rest : List Char) : Prop where
  quote_iff : e.message = "Unterminated string literal" ↔ c = '\x27'
  open_string : c = '\x27' → ∀ cs, ClosedString cs → ¬ cs <+: c :: rest
  other : c ≠ '\x27' → e.message = "Unexpected character: " ++ String.singleton c ∧ isBlank c = false ∧
    ∀ cs, cs ≠ [] → cs <+: c :: rest → ∀ tokens, scan (String.ofList cs) ≠ .ok tokens

/-- the text is at fault at the position of the error and not before -/
structure Localised (text : String) (e : ScanError) : Prop where
  within : e.position < text.utf8ByteSize
  boundary : String.Pos.Raw.IsValid text ⟨e.position⟩
  before : ∃ tokens, scan (slice text 0 e.position) = .ok tokens
  after : scan (slice text e.position text.utf8ByteSize) = .error { e with position := 0 }
  blames : ∃ c rest, (slice text e.position text.utf8ByteSize).toList = c :: rest ∧ Blames e c rest

theorem scan_of_fault {c : Char} {rest : List Char} {cause : ScanError.Cause} (hc : isBlank c = false)
    (h : lexeme c rest = .error cause) {cs : List Char} (hne : cs ≠ []) (hcs : cs <+: c :: rest) :
    scan (String.ofList cs) = .error ⟨cause, 0⟩ := by
  obtain ⟨d, body, rfl⟩ := List.exists_cons_of_ne_nil hne
  obtain ⟨rfl, hbody⟩ := List.cons_prefix_cons.1 hcs
  obtain ⟨after, rfl⟩ := hbody
  rw [scan, String.toList_ofList]
  exact scanFrom_of_fault hc (lexeme_of_append h) 0

theorem blames_of_fault {e : ScanError} {c : Char} {rest : List Char} (hc : isBlank c = false)
    (h : lexeme c rest = .error e.cause) : Blames e c rest := by
  have hnone : ∀ cs, cs ≠ [] → cs <+: c :: rest → ∀ tokens, scan (String.ofList cs) ≠ .ok tokens := by
    intro cs hne hcs tokens htokens
    rw [scan_of_fault hc h hne hcs] at htokens
    cases htokens
  obtain ⟨cause, position⟩ := e
  rcases lexeme_error h with ⟨hquote, hbody, hcause⟩ | ⟨hquote, hcause⟩
  · obtain rfl : cause = .unterminatedString := hcause
    refine ⟨⟨fun _ => hquote, fun _ => rfl⟩, ?_, fun hother => absurd hquote hother⟩
    intro _ cs hclosed hcs
    obtain ⟨content, hcontent, rfl⟩ := hclosed
    obtain ⟨-, after, hafter⟩ := List.cons_prefix_cons.1 hcs
    have hsome := (stringBody?_isSome_iff rest).2 ⟨content, after, hcontent, by simp [← hafter]⟩
    rw [hbody] at hsome
    cases hsome
  · obtain rfl : cause = .unexpected c := hcause
    refine ⟨⟨fun hmessage => ?_, fun hq => absurd hq hquote⟩, fun hq => absurd hq hquote, fun _ => ⟨rfl, hc, hnone⟩⟩
    have hchars := congrArg String.toList hmessage
    simp [ScanError.message] at hchars

/-- **Faults are localised.** The fault of a text that has no tokens is at a boundary within it. What stands before it has
tokens, what stands from it on has the same fault at its start, and the fault says what is wrong there. -/
theorem fault_localised {text : String} {e : ScanError} (h : scan text = .error e) : Localised text e := by
  obtain ⟨before, c, rest, ls, htext, hposition, hreaches, hc, hfault⟩ := reaches_of_fault h
  obtain ⟨before', hsplit, hscan⟩ := scanFrom_of_reaches hreaches
  obtain rfl : before = before' := List.append_cancel_right (htext.symm.trans hsplit)
  obtain ⟨tokens, -, hbefore, -⟩ := hscan 0
  obtain rfl : text = String.ofList (before ++ c :: rest) := by rw [← htext, String.ofList_toList]
  obtain ⟨cause, position⟩ := e
  obtain rfl : position = byteSize before := by simpa using hposition
  have hfirst : slice (String.ofList (before ++ c :: rest)) 0 (byteSize before) = String.ofList before :=
    slice_append [] before (c :: rest)
  have hlast : slice (String.ofList (before ++ c :: rest)) (byteSize before) (byteSize (before ++ c :: rest)) =
      String.ofList (c :: rest) := by
    have hslice := slice_append before (c :: rest) []
    rwa [List.append_nil] at hslice
  have hpos := byteSize_cons_pos c rest
  exact {
    within := by
      rw [utf8ByteSize_ofList, byteSize_append]
      omega
    boundary := isValid_byteSize before (c :: rest)
    before := ⟨tokens, by rw [hfirst, scan, String.toList_ofList, hbefore]⟩
    after := by
      rw [utf8ByteSize_ofList, hlast]
      exact scan_of_fault hc hfault (List.cons_ne_nil c rest) List.prefix_rfl
    blames := ⟨c, rest, by rw [utf8ByteSize_ofList, hlast, String.toList_ofList], blames_of_fault hc hfault⟩ }

/-- a quote after a character of two bytes, where the closing quote is escaped, and an `=` before a blank -/
theorem fault_of_escaped_quote :
    (scan "'é' < 'it\\'" = .error ⟨.unterminatedString, 7⟩ ∧ Localised "'é' < 'it\\'" ⟨.unterminatedString, 7⟩) ∧
      scan "a.b = c" = .error ⟨.unexpected '=', 4⟩ ∧ Localised "a.b = c" ⟨.unexpected '=', 4⟩ := by
  have hstring : scan "'é' < 'it\\'" = .error ⟨.unterminatedString, 7⟩ := by with_unfolding_all rfl
  have hequals : scan "a.b = c" = .error ⟨.unexpected '=', 4⟩ := by with_unfolding_all rfl
  exact ⟨⟨hstring, fault_localised hstring⟩, hequals, fault_localised hequals⟩

end Token

end Proviso
