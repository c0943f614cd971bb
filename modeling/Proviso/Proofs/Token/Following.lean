/-
What may follow a lexeme.

The same characters can be one lexeme or the beginning of a longer one: `<` before `=`, digits before a dot and a digit,
letters before letters. `Lexeme.EndsBefore l rest` says that nothing in `rest` makes `l` longer; it asks for two
characters of `rest` at most. It is exactly when characters that are a lexeme alone are the same lexeme before `rest`
(`lexeme_append_iff`). What it asks is kept when the end of `rest` is cut off and when blanks come after it
(`EndsBefore.of_append`, `EndsBefore.append_apart`), and for words and numbers it holds before anything that does not go
on them (`endsBefore_of_delimited`).
-/
import Proviso.Proofs.Token.Spans

namespace Proviso

open Text Token

/-- what follows the lexeme does not belong to it -/
def Lexeme.EndsBefore : Lexeme → List Char → Prop
  | ⟨.identifier, _⟩, rest => ∀ c ∈ rest.head?, continuesIdentifier c = false
  | ⟨.number, text⟩, rest => (∀ c ∈ rest.head?, c.isDigit = false) ∧
    ('.' ∈ text.toList ∨ ∀ d more, rest = '.' :: d :: more → d.isDigit = false)
  | ⟨.operator, text⟩, rest => text = "<" ∨ text = ">" ∨ text = "!" → rest.head? ≠ some '='
  | _, _ => True

namespace Token

/-! ## Runs of characters -/

theorem takeWhile_eq_nil_iff {p : Char → Bool} (rest : List Char) :
    rest.takeWhile p = [] ↔ ∀ c ∈ rest.head?, p c = false := by
  cases rest with
  | nil => simp
  | cons c rest => cases hc : p c <;> simp [hc]

theorem takeWhile_append_eq_iff {p : Char → Bool} {cs : List Char} (hcs : ∀ c ∈ cs, p c = true) (rest : List Char) :
    (cs ++ rest).takeWhile p = cs ↔ ∀ c ∈ rest.head?, p c = false := by
  rw [List.takeWhile_append_of_pos hcs, List.append_right_eq_self, takeWhile_eq_nil_iff]

/-- nothing belongs to a number that neither a digit goes on nor a dot with a digit -/
theorem numberBody_eq_nil_iff (rest : List Char) :
    numberBody rest = [] ↔
      (∀ c ∈ rest.head?, c.isDigit = false) ∧ ∀ d more, rest = '.' :: d :: more → d.isDigit = false := by
  constructor
  · intro h
    constructor
    · rw [← takeWhile_eq_nil_iff]
      have hsplit := numberBody_append (all_takeWhile (p := Char.isDigit) rest) (rest.dropWhile Char.isDigit)
      rw [List.takeWhile_append_dropWhile, h] at hsplit
      exact (List.append_eq_nil_iff.1 hsplit.symm).1
    · rintro d more rfl
      cases hd : d.isDigit with
      | false => rfl
      | true => simp [numberBody_dot more hd] at h
  · rintro ⟨hhead, hdot⟩
    have hnone := (takeWhile_eq_nil_iff rest).2 hhead
    have hall : rest.dropWhile Char.isDigit = rest := by
      have hsplit := List.takeWhile_append_dropWhile (p := Char.isDigit) (l := rest)
      rwa [hnone, List.nil_append] at hsplit
    rw [numberBody, hnone, hall]
    split
    · next d more =>
      rw [hdot d more rfl]
      rfl
    · rfl

/-- what is a number by itself after its first digit: digits, or digits, a dot and digits -/
theorem number_forms {body : List Char} (h : numberBody body = body) :
    (∀ x ∈ body, x.isDigit = true) ∨
      ∃ cs f fs, body = cs ++ '.' :: f :: fs ∧ (∀ x ∈ cs, x.isDigit = true) ∧ ∀ x ∈ f :: fs, x.isDigit = true := by
  rw [numberBody] at h
  split at h
  · next d more _ =>
    split at h
    · next hd =>
      refine .inr ⟨_, d, _, h.symm, all_takeWhile body, ?_⟩
      intro x hx
      rcases List.mem_cons.1 hx with rfl | hx
      · exact hd
      · exact all_takeWhile more x hx
    · exact .inl (h ▸ all_takeWhile body)
  · exact .inl (h ▸ all_takeWhile body)

/-! ## A lexeme in a longer text -/

theorem stringBody?_append {rest cs : List Char} {n : Nat} (h : stringBody? rest = some (cs, n)) (more : List Char) :
    stringBody? (rest ++ more) = some (cs, n) := by
  fun_induction stringBody? rest generalizing cs n with
  | case1 => simp at h
  | case2 rest => simpa [stringBody?] using h
  | case3 rest ih | case4 rest ih =>
    obtain ⟨⟨cs', n'⟩, hrest, heq⟩ := Option.map_eq_some_iff.1 h
    simpa [stringBody?, ih hrest] using heq
  | case5 c rest hquote hescaped hslash ih =>
    obtain ⟨⟨cs', n'⟩, hrest, heq⟩ := Option.map_eq_some_iff.1 h
    -- a backslash before the end of the string is not its last character, so it still escapes nothing
    have hne : rest ≠ [] := by
      rintro rfl
      simp [stringBody?] at hrest
    obtain ⟨d, rest, rfl⟩ := List.exists_cons_of_ne_nil hne
    rw [List.cons_append, stringBody?.eq_5, ih hrest]
    · exact congrArg some heq
    · exact hquote
    · intro tail hc htail
      exact hescaped rest hc (by rw [(List.cons.inj htail).1])
    · intro tail hc htail
      exact hslash rest hc (by rw [(List.cons.inj htail).1])

theorem symbol?_append_iff {c : Char} {body : List Char} {l : Lexeme} (own : symbol? c body = some (l, body.length))
    (rest : List Char) : lexeme c (body ++ rest) = .ok (l, body.length) ↔ l.EndsBefore rest := by
  unfold symbol? at own
  split at own
  case h_17 => simp at own
  all_goals obtain ⟨rfl, hlength⟩ := Prod.mk.inj (Option.some.inj own)
  case h_1 | h_2 | h_3 | h_4 | h_5 | h_6 | h_7 =>
    obtain rfl := List.length_eq_zero_iff.1 (Nat.succ.inj hlength.symm)
    simp [lexeme, symbol?, Lexeme.EndsBefore]
  all_goals obtain rfl := List.length_eq_zero_iff.1 hlength.symm
  case h_8 | h_9 | h_10 =>
    cases rest with
    | nil => simp [lexeme, symbol?, Lexeme.EndsBefore]
    | cons d rest => by_cases hd : d = '=' <;> simp [lexeme, symbol?, Lexeme.EndsBefore, hd]
  all_goals simp [lexeme, symbol?, Lexeme.EndsBefore]

theorem number_append_iff {c : Char} {body : List Char} (hc : c.isDigit = true) (hbody : numberBody body = body)
    (rest : List Char) : numberBody (body ++ rest) = body ↔
      Lexeme.EndsBefore ⟨.number, String.ofList (c :: body)⟩ rest := by
  simp only [Lexeme.EndsBefore, String.toList_ofList]
  rcases number_forms hbody with hdigits | ⟨cs, f, fs, rfl, hcs, hplaces⟩
  · have hdot : '.' ∉ c :: body := by
      intro hmem
      rcases List.mem_cons.1 hmem with rfl | hmem
      · exact absurd hc (by decide)
      · exact absurd (hdigits '.' hmem) (by decide)
    rw [numberBody_append hdigits, List.append_right_eq_self, numberBody_eq_nil_iff]
    simp only [hdot, false_or]
  · have hdot : '.' ∈ c :: (cs ++ '.' :: f :: fs) := by simp
    have hf := hplaces f List.mem_cons_self
    have hfs : ∀ x ∈ fs, x.isDigit = true := fun x hx => hplaces x (List.mem_cons_of_mem f hx)
    rw [List.append_assoc, List.cons_append, List.cons_append, numberBody_append hcs, numberBody_dot _ hf]
    simp [takeWhile_append_eq_iff hfs]

/-- **A lexeme ends where nothing makes it longer.** Characters that are a lexeme alone are the same lexeme before `rest`
exactly when it ends there. -/
theorem lexeme_append_iff {c : Char} {body : List Char} {l : Lexeme} (own : lexeme c body = .ok (l, body.length))
    (rest : List Char) : lexeme c (body ++ rest) = .ok (l, body.length) ↔ l.EndsBefore rest := by
  -- a number and a word are read as before exactly when as many characters belong to them
  have hsame : ∀ {kind : Kind} {found : List Char}, found = body ↔
      (.ok (⟨kind, String.ofList (c :: found)⟩, found.length) : Except ScanError.Cause (Lexeme × Nat)) =
        .ok (⟨kind, String.ofList (c :: body)⟩, body.length) := by
    intro kind found
    constructor
    · rintro rfl
      rfl
    · intro h
      have htext := congrArg (fun l : Lexeme × Nat => l.1.text.toList) (Except.ok.inj h)
      simpa using htext
  rcases lexeme_cases own with hsymbol | ⟨rfl, cs, hbody, rfl⟩ | ⟨hdigit, rfl, hlength⟩ | ⟨hstart, rfl, hlength⟩
  · exact symbol?_append_iff hsymbol rest
  · rw [lexeme, symbol?_eq_none (by decide)]
    simp [stringBody?_append hbody rest, Lexeme.EndsBefore]
  · have hbody := numberBody_eq_self hlength
    rw [hbody, lexeme_of_isDigit hdigit, ← hsame]
    exact number_append_iff hdigit hbody rest
  · have hbody := (List.takeWhile_prefix (l := body) continuesIdentifier).eq_of_length hlength.symm
    have hall : ∀ x ∈ body, continuesIdentifier x = true := hbody ▸ all_takeWhile body
    rw [hbody, lexeme_of_startsIdentifier hstart, ← hsame]
    exact takeWhile_append_eq_iff hall rest

end Token

/-! ## Changing what follows -/

namespace Lexeme.EndsBefore

variable {l : Lexeme} {before after : List Char}

/-- what follows may be cut off anywhere -/
theorem of_append (h : l.EndsBefore (before ++ after)) : l.EndsBefore before := by
  have hhead : ∀ {x}, x ∈ before.head? → x ∈ (before ++ after).head? := by
    intro x hx
    rw [List.head?_append, Option.mem_def.1 hx]
    rfl
  obtain ⟨kind, text⟩ := l
  cases kind with
  | identifier => exact fun x hx => h x (hhead hx)
  | number =>
    obtain ⟨hdigit, hdot⟩ := h
    refine ⟨fun x hx => hdigit x (hhead hx), hdot.imp_right ?_⟩
    rintro hdot d more rfl
    exact hdot d (more ++ after) rfl
  | operator => exact fun hshort heq => h hshort (hhead heq)
  | _ => trivial

/-- blanks, or the end of the text, may come after what follows -/
theorem append_apart (h : l.EndsBefore before) (ha : Apart after) : l.EndsBefore (before ++ after) := by
  have hhead : ∀ {x}, x ∈ (before ++ after).head? → x ∈ before.head? ∨ isBlank x = true := by
    intro x hx
    cases before with
    | nil => exact .inr (ha x hx)
    | cons y before => exact .inl hx
  have hdigit : ∀ {x : Char}, isBlank x = true → x.isDigit = false := not_of_isBlank fun _ => continuesIdentifier_of_isDigit
  obtain ⟨kind, text⟩ := l
  cases kind with
  | identifier => exact fun x hx => (hhead hx).elim (h x) (not_of_isBlank fun _ hc => hc)
  | number =>
    obtain ⟨hnone, hdot⟩ := h
    refine ⟨fun x hx => (hhead hx).elim (hnone x) hdigit, hdot.imp_right fun hdot d more heq => ?_⟩
    -- the dot and the character after it may stand on either side
    rcases before with _ | ⟨x, _ | ⟨y, before⟩⟩
    · exact absurd (ha '.' (by simp_all)) (by decide)
    · exact hdigit (ha d (by simp_all))
    · exact hdot d before (by simp_all)
  | operator =>
    intro hshort heq
    rcases hhead heq with heq | heq
    · exact h hshort heq
    · exact absurd heq (by decide)
  | _ => trivial

end Lexeme.EndsBefore

/-- what follows a lexeme may be cut off anywhere after it -/
theorem Token.lexeme_before {c : Char} {body before after : List Char} {l : Lexeme}
    (h : lexeme c (body ++ (before ++ after)) = .ok (l, body.length)) :
    lexeme c (body ++ before) = .ok (l, body.length) := by
  have hends := (lexeme_append_iff (lexeme_alone h) _).1 h
  exact (lexeme_append_iff (lexeme_alone h) before).2 hends.of_append

/-! ## Before what does not go on a word -/

/-- neither a letter, a digit or an underscore comes first, nor a dot -/
def Token.Delimited (rest : List Char) : Prop := ∀ c ∈ rest.head?, continuesIdentifier c = false ∧ c ≠ '.'

theorem Token.delimited_cons {c : Char} {cs : List Char} :
    Delimited (c :: cs) ↔ continuesIdentifier c = false ∧ c ≠ '.' := by
  simp [Delimited]

theorem Token.Delimited.after_blanks {gap rest : List Char} (hg : ∀ c ∈ gap, isBlank c = true) (h : Delimited rest) :
    Delimited (gap ++ rest) := by
  cases gap with
  | nil => exact h
  | cons c gap =>
    have hc := hg c List.mem_cons_self
    refine delimited_cons.2 ⟨not_of_isBlank (fun _ hx => hx) hc, ?_⟩
    rintro rfl
    exact absurd hc (by decide)

/-- a number ends there, and so does an identifier -/
theorem Lexeme.endsBefore_of_delimited {l : Lexeme} (hl : l.kind = .number ∨ l.kind = .identifier) {rest : List Char}
    (h : Delimited rest) : l.EndsBefore rest := by
  obtain ⟨kind, text⟩ := l
  rcases hl with rfl | rfl
  · refine ⟨fun c hc => ?_, .inr ?_⟩
    · cases hdigit : c.isDigit with
      | false => rfl
      | true => exact absurd (continuesIdentifier_of_isDigit hdigit) (by simp [(h c hc).1])
    · rintro d more rfl
      exact absurd rfl (h '.' rfl).2
  · exact fun c hc => (h c hc).1

end Proviso
