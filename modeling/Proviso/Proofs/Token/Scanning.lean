/-
How scanning goes on: over blanks, and over one lexeme.

Blanks only move the position (`scanFrom_blanks`). What is not blank starts a lexeme, and after it scanning goes on
where the lexeme has ended (`scanFrom_lexeme`). No blank continues a run of letters or digits, so a blank ends each
(`takeWhile_apart`, `dropWhile_apart`).
-/
import Proviso.Token.Scan

namespace Proviso

namespace Token

open Text

/-! ## Blanks and other characters -/

theorem toNat_of_isAlpha {c : Char} (h : c.isAlpha = true) :
    65 ≤ c.toNat ∧ c.toNat ≤ 90 ∨ 97 ≤ c.toNat ∧ c.toNat ≤ 122 := by
  have h : (decide ('A'.val ≤ c.val ∧ c.val ≤ 'Z'.val) || decide ('a'.val ≤ c.val) && decide (c.val ≤ 'z'.val)) =
    true := h
  simp only [Bool.or_eq_true, Bool.and_eq_true, decide_eq_true_eq, UInt32.le_iff_toNat_le] at h
  exact h

theorem toNat_of_isDigit {c : Char} (h : c.isDigit = true) : 48 ≤ c.toNat ∧ c.toNat ≤ 57 := Char.isDigit_iff_toNat.1 h

theorem continuesIdentifier_of_isDigit {c : Char} (h : c.isDigit = true) : continuesIdentifier c = true := by
  simp [continuesIdentifier, Char.isAlphanum, h]

theorem continuesIdentifier_of_startsIdentifier {c : Char} (h : startsIdentifier c = true) :
    continuesIdentifier c = true := by
  simp only [startsIdentifier, continuesIdentifier, Char.isAlphanum, Bool.or_eq_true] at h ⊢
  exact h.imp_left .inl

theorem isBlank_eq_false_of_continuesIdentifier {c : Char} (h : continuesIdentifier c = true) : isBlank c = false := by
  have hn : 48 ≤ c.toNat ∧ c.toNat ≤ 122 := by
    simp only [continuesIdentifier, Char.isAlphanum, Bool.or_eq_true, beq_iff_eq] at h
    rcases h with (halpha | hdigit) | rfl
    · have := toNat_of_isAlpha halpha
      omega
    · have := toNat_of_isDigit hdigit
      omega
    · decide
  simp only [isBlank, Bool.or_eq_false_iff, Bool.and_eq_false_iff, decide_eq_false_iff_not, beq_eq_false_iff_ne]
  omega

theorem isDigit_eq_false_of_startsIdentifier {c : Char} (h : startsIdentifier c = true) : c.isDigit = false := by
  have hn : 58 ≤ c.toNat := by
    simp only [startsIdentifier, Bool.or_eq_true, beq_iff_eq] at h
    rcases h with halpha | rfl
    · have := toNat_of_isAlpha halpha
      omega
    · decide
  cases hdigit : c.isDigit with
  | false => rfl
  | true =>
    have := toNat_of_isDigit hdigit
    omega

/-- characters before which every lexeme but a string ends: none, or a blank first -/
def Apart (rest : List Char) : Prop := ∀ c ∈ rest.head?, isBlank c = true

theorem apart_append {gap : List Char} (hg : ∀ c ∈ gap, isBlank c = true) (hne : gap ≠ []) (rest : List Char) :
    Apart (gap ++ rest) := by
  obtain ⟨c, gap, rfl⟩ := List.exists_cons_of_ne_nil hne
  intro x hx
  obtain rfl : c = x := by simpa using hx
  exact hg _ List.mem_cons_self

/-- what stands apart does not start with a character that is not blank -/
theorem Apart.head?_ne {rest : List Char} (h : Apart rest) {c : Char} (hc : isBlank c = false) :
    rest.head? ≠ some c := by
  intro he
  have := h c he
  simp [hc] at this

section

variable {p : Char → Bool} (hp : ∀ c, p c = true → continuesIdentifier c = true) {cs rest : List Char}
  (hcs : ∀ c ∈ cs, p c = true) (hr : Apart rest)

include hp in
theorem not_of_isBlank {c : Char} (hc : isBlank c = true) : p c = false := by
  cases h : p c with
  | false => rfl
  | true =>
    have := isBlank_eq_false_of_continuesIdentifier (hp c h)
    simp [hc] at this

include hp hr in
theorem not_of_apart : ∀ c ∈ rest.head?, p c = false := fun c hc => not_of_isBlank hp (hr c hc)

include hp hcs hr in
theorem takeWhile_apart : (cs ++ rest).takeWhile p = cs := by
  rw [List.takeWhile_append_of_pos hcs]
  cases rest with
  | nil => simp
  | cons c rest => simp [not_of_apart hp hr c rfl]

include hp hcs hr in
theorem dropWhile_apart : (cs ++ rest).dropWhile p = rest := by
  rw [List.dropWhile_append_of_pos hcs]
  cases rest with
  | nil => rfl
  | cons c rest => simp [not_of_apart hp hr c rfl]

end

/-- the characters that symbols start with -/
def symbolStarts : List Char := ['=', '!', '<', '>', '&', '|', '.', ',', '(', ')', '[', ']']

theorem symbol?_eq_none {c : Char} (h : c ∉ symbolStarts) (rest : List Char) : symbol? c rest = none := by
  unfold symbol?
  split
  case h_17 => rfl
  all_goals exact absurd (by decide) h

/-! ## Steps of scanning -/

theorem scanFrom_nil (position : Nat) : scanFrom position [] = .ok [] := by
  rw [scanFrom.eq_def]

theorem scanFrom_of_isBlank {c : Char} (hc : isBlank c = true) (position : Nat) (rest : List Char) :
    scanFrom position (c :: rest) = scanFrom (position + c.utf8Size) rest := by
  rw [scanFrom.eq_def]
  simp only [hc, if_true]

theorem scanFrom_blanks {gap : List Char} (hg : ∀ c ∈ gap, isBlank c = true) (position : Nat) (rest : List Char) :
    scanFrom position (gap ++ rest) = scanFrom (position + byteSize gap) rest := by
  induction gap generalizing position with
  | nil => simp [byteSize]
  | cons c gap ih =>
    have hgap : ∀ x ∈ gap, isBlank x = true := fun x hx => hg x (List.mem_cons_of_mem _ hx)
    rw [List.cons_append, scanFrom_of_isBlank (hg c List.mem_cons_self), ih hgap]
    simp [byteSize, Nat.add_assoc]

theorem scanFrom_of_lexeme {c : Char} {body rest : List Char} {l : Lexeme} (hc : isBlank c = false)
    (hl : lexeme c (body ++ rest) = .ok (l, body.length)) (position : Nat) :
    scanFrom position (c :: (body ++ rest)) =
      (scanFrom (position + byteSize (c :: body)) rest).map
        ({ l with start := position, stop := position + byteSize (c :: body) } :: ·) := by
  rw [scanFrom.eq_def]
  simp only [hc, hl, List.take_left, List.drop_left, Bool.false_eq_true, if_false]
  cases scanFrom (position + byteSize (c :: body)) rest <;> rfl

theorem scanFrom_lexeme {c : Char} {body rest : List Char} {l : Lexeme} {position : Nat} {tokens : List Token}
    (hc : isBlank c = false) (hl : lexeme c (body ++ rest) = .ok (l, body.length))
    (ht : scanFrom (position + byteSize (c :: body)) rest = .ok tokens) :
    scanFrom position (c :: (body ++ rest)) =
      .ok ({ l with start := position, stop := position + byteSize (c :: body) } :: tokens) := by
  rw [scanFrom_of_lexeme hc hl, ht]
  rfl

end Token

end Proviso
