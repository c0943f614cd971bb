/-
Tokens stand in their text as they say.

Two facts about one lexeme carry this. A lexeme is told by its own characters: what follows them decides where it ends,
but cut off there it is the same lexeme (`lexeme_take`). And scanning tiles the text: blanks, a lexeme, blanks, a lexeme,
and so on to the end (`Tiling`, `tiling_of_scanFrom`). Every property of a span is then read off the tiling, by induction
on it for those that relate one token to the next (`Tiling.ordered`, `Tiling.gaps_blank`), and for those of a single token
from the place where it stands (`Tiling.standsIn`). `spans_faithful` puts them together.
-/
import Mathlib.Data.String.Basic
import Proviso.Proofs.Token.Rendering

namespace Proviso

/-! ## Parts of a text -/

theorem byteSize_eq_utf8Len (cs : List Char) : byteSize cs = String.utf8Len cs := by
  induction cs with
  | nil => rfl
  | cons c cs ih =>
    rw [String.utf8Len_cons, ← ih]
    simp [byteSize, Nat.add_comm]

theorem utf8ByteSize_ofList (cs : List Char) : (String.ofList cs).utf8ByteSize = byteSize cs := by
  rw [byteSize_eq_utf8Len]
  exact String.utf8ByteSize_ofList cs

theorem byteSize_cons_pos (c : Char) (cs : List Char) : 0 < byteSize (c :: cs) := by
  have := c.utf8Size_pos
  simp only [byteSize, List.map_cons, List.sum_cons]
  omega

/-- the part of a text from byte `i` up to byte `j` -/
def slice (text : String) (i j : Nat) : String := String.Pos.Raw.extract text ⟨i⟩ ⟨j⟩

theorem slice_append (before source after : List Char) :
    slice (String.ofList (before ++ source ++ after)) (byteSize before) (byteSize (before ++ source)) =
      String.ofList source := by
  have h := String.extract_of_valid before source after
  rwa [← byteSize_eq_utf8Len, ← byteSize_eq_utf8Len, ← byteSize_append] at h

theorem slice_first (before after : List Char) :
    slice (String.ofList (before ++ after)) 0 (byteSize before) = String.ofList before :=
  slice_append [] before after

theorem slice_last (before after : List Char) :
    slice (String.ofList (before ++ after)) (byteSize before) (byteSize (before ++ after)) = String.ofList after := by
  have h := slice_append before after []
  rwa [List.append_nil] at h

/-- where some first characters of a text have ended, a character starts or the text has ended -/
theorem isValid_byteSize (before after : List Char) :
    String.Pos.Raw.IsValid (String.ofList (before ++ after)) ⟨byteSize before⟩ := by
  rw [String.Pos.Raw.isValid_ofList]
  refine ⟨before.length, ?_⟩
  rw [List.take_left, utf8ByteSize_ofList]

namespace Token

open Text

/-! ## A lexeme is told by its own characters -/

theorem symbol?_take {c : Char} {rest : List Char} {l : Lexeme} {n : Nat} (h : symbol? c rest = some (l, n)) :
    n ≤ rest.length ∧ symbol? c (rest.take n) = some (l, n) := by
  unfold symbol? at h
  split at h
  all_goals simp only [Option.some.injEq, Prod.mk.injEq, reduceCtorEq] at h
  all_goals obtain ⟨rfl, rfl⟩ := h
  all_goals exact ⟨by simp, rfl⟩

/-- a first character of the first `n` characters is the first of all -/
theorem eq_cons_of_take {rest more : List Char} {n : Nat} {x : Char} (h : rest.take n = x :: more) :
    ∃ more', rest = x :: more' := by
  cases rest with
  | nil => simp at h
  | cons y rest =>
    cases n with
    | zero => simp at h
    | succ n =>
      rw [List.take_succ_cons] at h
      exact ⟨rest, by rw [(List.cons.inj h).1]⟩

theorem stringBody?_take {rest cs : List Char} {n : Nat} (h : stringBody? rest = some (cs, n)) :
    n ≤ rest.length ∧ stringBody? (rest.take n) = some (cs, n) := by
  fun_induction stringBody? rest generalizing cs n with
  | case1 => simp at h
  | case2 rest =>
    simp only [Option.some.injEq, Prod.mk.injEq] at h
    obtain ⟨rfl, rfl⟩ := h
    exact ⟨by simp, rfl⟩
  | case3 rest ih | case4 rest ih =>
    obtain ⟨⟨cs', n'⟩, hrest, heq⟩ := Option.map_eq_some_iff.1 h
    obtain ⟨rfl, rfl⟩ := Prod.mk.inj heq
    obtain ⟨hle, hown⟩ := ih hrest
    exact ⟨by simpa using hle, by simp [stringBody?, hown]⟩
  | case5 c rest hquote hescaped hslash ih =>
    obtain ⟨⟨cs', n'⟩, hrest, heq⟩ := Option.map_eq_some_iff.1 h
    obtain ⟨rfl, rfl⟩ := Prod.mk.inj heq
    obtain ⟨hle, hown⟩ := ih hrest
    refine ⟨by simpa using hle, ?_⟩
    -- a backslash that escapes nothing in the whole text escapes nothing in the part either
    rw [List.take_succ_cons, stringBody?.eq_5, hown]
    · rfl
    · exact hquote
    · intro more hc htake
      obtain ⟨more', hrest'⟩ := eq_cons_of_take htake
      exact hescaped more' hc hrest'
    · intro more hc htake
      obtain ⟨more', hrest'⟩ := eq_cons_of_take htake
      exact hslash more' hc hrest'

theorem all_takeWhile {p : Char → Bool} (cs : List Char) : ∀ x ∈ cs.takeWhile p, p x = true :=
  List.all_eq_true.1 List.all_takeWhile

theorem apart_nil : Apart [] := by
  intro c hc
  simp at hc

/-- the digits of a number are the first characters of what it is read from, and a number by themselves -/
theorem numberBody_own (rest : List Char) :
    (∃ after, rest = numberBody rest ++ after) ∧ numberBody (numberBody rest) = numberBody rest := by
  have hsplit := List.takeWhile_append_dropWhile (p := Char.isDigit) (l := rest)
  have hwhole : numberBody (rest.takeWhile Char.isDigit) = rest.takeWhile Char.isDigit := by
    have halone := numberBody_whole (all_takeWhile rest) apart_nil
    rwa [List.append_nil] at halone
  rw [numberBody.eq_def rest]
  simp only
  split
  · next d more hdrop =>
    split
    · next hd =>
      have hplaces : ∀ x ∈ d :: more.takeWhile Char.isDigit, x.isDigit = true := by
        intro x hx
        rcases List.mem_cons.1 hx with rfl | hx
        · exact hd
        · exact all_takeWhile more x hx
      refine ⟨⟨more.dropWhile Char.isDigit, ?_⟩, ?_⟩
      · rw [List.append_assoc, List.cons_append, List.cons_append, List.takeWhile_append_dropWhile, ← hdrop, hsplit]
      · have halone := numberBody_decimal (all_takeWhile rest) hplaces apart_nil
        rwa [List.append_nil] at halone
    · exact ⟨⟨_, hsplit.symm⟩, hwhole⟩
  · exact ⟨⟨_, hsplit.symm⟩, hwhole⟩

theorem numberBody_take (rest : List Char) :
    (numberBody rest).length ≤ rest.length ∧ rest.take (numberBody rest).length = numberBody rest := by
  obtain ⟨after, hrest⟩ := (numberBody_own rest).1
  generalize numberBody rest = body at hrest ⊢
  subst hrest
  exact ⟨by simp, List.take_left⟩

/-- what takes all of its characters is a number by itself -/
theorem numberBody_eq_self {body : List Char} (h : body.length = (numberBody body).length) : numberBody body = body := by
  obtain ⟨after, hafter⟩ := (numberBody_own body).1
  exact List.IsPrefix.eq_of_length ⟨after, hafter.symm⟩ h.symm

/-- the four kinds of lexemes: a fixed spelling, a string, a number, and a word -/
theorem lexeme_cases {c : Char} {rest : List Char} {l : Lexeme} {n : Nat} (h : lexeme c rest = .ok (l, n)) :
    symbol? c rest = some (l, n) ∨
    (c = '\x27' ∧ ∃ cs, stringBody? rest = some (cs, n) ∧ l = ⟨.string, String.ofList cs⟩) ∨
    (c.isDigit = true ∧ l = ⟨.number, String.ofList (c :: numberBody rest)⟩ ∧ n = (numberBody rest).length) ∨
    (startsIdentifier c = true ∧ l = ⟨.identifier, String.ofList (c :: rest.takeWhile continuesIdentifier)⟩ ∧
      n = (rest.takeWhile continuesIdentifier).length) := by
  unfold lexeme at h
  split at h
  · next hsymbol =>
    obtain rfl := Except.ok.inj h
    exact .inl hsymbol
  · split at h
    · next hquote =>
      split at h
      · next cs _ hbody =>
        obtain ⟨rfl, rfl⟩ := Prod.mk.inj (Except.ok.inj h)
        exact .inr (.inl ⟨hquote, cs, hbody, rfl⟩)
      · simp at h
    · split at h
      · next hdigit =>
        obtain ⟨rfl, rfl⟩ := Prod.mk.inj (Except.ok.inj h)
        exact .inr (.inr (.inl ⟨hdigit, rfl, rfl⟩))
      · split at h
        · next hstart =>
          obtain ⟨rfl, rfl⟩ := Prod.mk.inj (Except.ok.inj h)
          exact .inr (.inr (.inr ⟨hstart, rfl, rfl⟩))
        · simp at h

/-- **A lexeme is told by its own characters.** It takes no more characters than there are, and these alone are the same
lexeme. -/
theorem lexeme_take {c : Char} {rest : List Char} {l : Lexeme} {n : Nat} (h : lexeme c rest = .ok (l, n)) :
    n ≤ rest.length ∧ lexeme c (rest.take n) = .ok (l, n) := by
  rcases lexeme_cases h with hsymbol | ⟨rfl, cs, hbody, rfl⟩ | ⟨hdigit, rfl, rfl⟩ | ⟨hstart, rfl, rfl⟩
  · obtain ⟨hle, hown⟩ := symbol?_take hsymbol
    exact ⟨hle, by rw [lexeme, hown]⟩
  · obtain ⟨hle, hown⟩ := stringBody?_take hbody
    refine ⟨hle, ?_⟩
    rw [lexeme, symbol?_eq_none (by decide)]
    simp [hown]
  · obtain ⟨hle, htake⟩ := numberBody_take rest
    refine ⟨hle, ?_⟩
    rw [htake]
    have halone : lexeme c (numberBody rest ++ []) = _ :=
      lexeme_number hdigit (by rw [List.append_nil]; exact (numberBody_own rest).2)
    rwa [List.append_nil] at halone
  · have hfirst := List.takeWhile_prefix (l := rest) continuesIdentifier
    refine ⟨hfirst.length_le, ?_⟩
    rw [← List.prefix_iff_eq_take.1 hfirst]
    have halone := lexeme_identifier hstart (all_takeWhile rest) apart_nil
    rwa [List.append_nil] at halone

/-- cut off where it has ended, a lexeme is the same -/
theorem lexeme_alone {c : Char} {body rest : List Char} {l : Lexeme}
    (h : lexeme c (body ++ rest) = .ok (l, body.length)) : lexeme c body = .ok (l, body.length) := by
  have hown := (lexeme_take h).2
  rwa [List.take_left] at hown

/-! ## Tiling -/

/-- The characters of a text after `lead` are tiled by tokens: there are blanks, or blanks, then the characters of one
lexeme, which are no more than it needs, and then characters that are tiled by the other tokens. -/
inductive Tiling : List Char → List Char → List Token → Prop where
  | blanks {lead gap : List Char} (blank : ∀ c ∈ gap, isBlank c = true) : Tiling lead gap []
  | token {lead gap : List Char} {c : Char} {body rest : List Char} {l : Lexeme} {tokens : List Token}
    (blank : ∀ c ∈ gap, isBlank c = true) (start : isBlank c = false) (own : lexeme c body = .ok (l, body.length))
    (more : Tiling (lead ++ gap ++ c :: body) rest tokens) :
    Tiling lead (gap ++ c :: body ++ rest)
      ({ l with start := byteSize (lead ++ gap), stop := byteSize (lead ++ gap ++ c :: body) } :: tokens)

theorem Tiling.cons_blank {lead cs : List Char} {tokens : List Token} {c : Char} (hc : isBlank c = true)
    (h : Tiling (lead ++ [c]) cs tokens) : Tiling lead (c :: cs) tokens := by
  have hblank : ∀ {gap : List Char}, (∀ x ∈ gap, isBlank x = true) → ∀ x ∈ c :: gap, isBlank x = true := by
    intro gap hgap x hx
    rcases List.mem_cons.1 hx with rfl | hx
    · exact hc
    · exact hgap x hx
  cases h with
  | blanks hgap => exact .blanks (hblank hgap)
  | @token _ gap d body rest l tokens hgap hd own more =>
    have htile : Tiling lead (c :: gap ++ d :: body ++ rest) _ :=
      .token (hblank hgap) hd own (by simpa using more)
    simpa using htile

/-- **Scanning tiles the text.** -/
theorem tiling_of_scanFrom {lead cs : List Char} {tokens : List Token}
    (h : scanFrom (byteSize lead) cs = .ok tokens) : Tiling lead cs tokens := by
  generalize hposition : byteSize lead = position at h
  fun_induction scanFrom position cs generalizing lead tokens with
  | case1 position =>
    obtain rfl := Except.ok.inj h
    exact .blanks (by simp)
  | case2 position c rest hc ih =>
    refine Tiling.cons_blank hc (ih ?_ h)
    rw [byteSize_append, hposition]
    simp [byteSize]
  | case3 => simp at h
  | case4 => simp at h
  | case5 position c rest hc l n hl stop later hlater =>
    rename_i ih
    obtain rfl := Except.ok.inj h
    obtain ⟨hle, hown⟩ := lexeme_take hl
    have hlength : (rest.take n).length = n := by simpa using hle
    have hstop : byteSize (lead ++ c :: rest.take n) = stop := by rw [byteSize_append, hposition]
    have hmore := ih hstop hlater
    have htile : Tiling lead ([] ++ c :: rest.take n ++ rest.drop n) _ :=
      .token (by simp) (by simpa using hc) (by rwa [hlength]) (by simpa using hmore)
    simpa [hposition, hstop] using htile

/-! ## What a tiling tells of the spans -/

/-- The token stands in the characters: its bytes are those of a lexeme that they hold, and it is that lexeme. -/
def StandsIn (t : Token) (cs : List Char) : Prop :=
  ∃ (before : List Char) (c : Char) (body after : List Char), cs = before ++ c :: body ++ after ∧ isBlank c = false ∧
    lexeme c body = .ok (t.toLexeme, body.length) ∧ t.start = byteSize before ∧ t.stop = byteSize (before ++ c :: body)

theorem Tiling.standsIn {lead cs : List Char} {tokens : List Token} (h : Tiling lead cs tokens) :
    ∀ t ∈ tokens, t.StandsIn (lead ++ cs) := by
  induction h with
  | blanks => simp
  | @token lead gap c body rest l tokens hgap hc own more ih =>
    intro t ht
    rcases List.mem_cons.1 ht with rfl | ht
    · exact ⟨lead ++ gap, c, body, rest, by simp, hc, own, rfl, rfl⟩
    · have := ih t ht
      simpa using this

/-- no token starts before what is tiled, nor before an earlier one has ended -/
theorem Tiling.ordered {lead cs : List Char} {tokens : List Token} (h : Tiling lead cs tokens) :
    (∀ t ∈ tokens, byteSize lead ≤ t.start) ∧ tokens.Pairwise fun t u => t.stop ≤ u.start := by
  induction h with
  | blanks => simp
  | @token lead gap c body rest l tokens hgap hc own more ih =>
    obtain ⟨hstart, hpairs⟩ := ih
    refine ⟨?_, List.pairwise_cons.2 ⟨hstart, hpairs⟩⟩
    intro t ht
    rcases List.mem_cons.1 ht with rfl | ht
    · simp [byteSize_append]
    · have := hstart t ht
      simp only [byteSize_append] at this
      omega

/-- The parts of a text that no token takes, from byte `first` on: before the first token, between each token and the
next, and after the last. -/
def gaps (text : String) (first : Nat) : List Token → List String
  | [] => [slice text first text.utf8ByteSize]
  | t :: tokens => slice text first t.start :: gaps text t.stop tokens

theorem Tiling.gaps_blank {lead cs : List Char} {tokens : List Token} (h : Tiling lead cs tokens) :
    ∀ gap ∈ gaps (String.ofList (lead ++ cs)) (byteSize lead) tokens, ∀ c ∈ gap.toList, isBlank c = true := by
  induction h with
  | @blanks lead gap hgap =>
    simp only [gaps, utf8ByteSize_ofList, slice_last, List.mem_singleton, forall_eq, String.toList_ofList]
    exact hgap
  | @token lead gap c body rest l tokens hgap hc own more ih =>
    have hslice := slice_append lead gap (c :: body ++ rest)
    have hcs : lead ++ (gap ++ c :: body ++ rest) = lead ++ gap ++ (c :: body ++ rest) := by simp
    simp only [gaps, List.mem_cons, forall_eq_or_imp]
    constructor
    · rw [hcs, hslice, String.toList_ofList]
      exact hgap
    · simpa using ih

/-- the spans of some tokens are faithful to the text that they were scanned from -/
structure Faithful (text : String) (tokens : List Token) : Prop where
  /-- a token takes bytes of the text, and at least one -/
  within : ∀ t ∈ tokens, t.start < t.stop ∧ t.stop ≤ text.utf8ByteSize
  /-- tokens stand in order and do not overlap -/
  ordered : tokens.Pairwise fun t u => t.stop ≤ u.start
  /-- no token starts or ends within a character -/
  boundaries : ∀ t ∈ tokens, String.Pos.Raw.IsValid text ⟨t.start⟩ ∧ String.Pos.Raw.IsValid text ⟨t.stop⟩
  /-- what no token takes is blank -/
  blank : ∀ gap ∈ gaps text 0 tokens, ∀ c ∈ gap.toList, isBlank c = true
  /-- the bytes of a token are scanned into this token alone -/
  alone : ∀ t ∈ tokens, let source := slice text t.start t.stop
    scan source = .ok [{ t with start := 0, stop := source.utf8ByteSize }]

theorem StandsIn.within {t : Token} {cs : List Char} (h : t.StandsIn cs) :
    t.start < t.stop ∧ t.stop ≤ (String.ofList cs).utf8ByteSize := by
  obtain ⟨before, c, body, after, rfl, -, -, hstart, hstop⟩ := h
  have hpos := byteSize_cons_pos c body
  rw [hstart, hstop, utf8ByteSize_ofList]
  simp only [byteSize_append]
  omega

theorem StandsIn.boundaries {t : Token} {cs : List Char} (h : t.StandsIn cs) :
    String.Pos.Raw.IsValid (String.ofList cs) ⟨t.start⟩ ∧ String.Pos.Raw.IsValid (String.ofList cs) ⟨t.stop⟩ := by
  obtain ⟨before, c, body, after, rfl, -, -, hstart, hstop⟩ := h
  rw [hstart, hstop]
  refine ⟨?_, isValid_byteSize _ _⟩
  rw [List.append_assoc]
  exact isValid_byteSize _ _

theorem StandsIn.alone {t : Token} {cs : List Char} (h : t.StandsIn cs) :
    let source := slice (String.ofList cs) t.start t.stop
    scan source = .ok [{ t with start := 0, stop := source.utf8ByteSize }] := by
  obtain ⟨before, c, body, after, rfl, hc, own, hstart, hstop⟩ := h
  have hscan : scanFrom 0 (c :: (body ++ [])) = _ := scanFrom_lexeme hc (by rwa [List.append_nil]) (scanFrom_nil _)
  rw [List.append_nil, Nat.zero_add] at hscan
  intro source
  have hsource : source = String.ofList (c :: body) := by
    rw [← slice_append before (c :: body) after, ← hstart, ← hstop]
  rw [hsource, scan, String.toList_ofList, utf8ByteSize_ofList]
  exact hscan

/-- **Spans are faithful.** Whenever a text has tokens, they stand in order within the text without overlap, no span
cuts a character, only blanks stand outside the spans, and each span alone is scanned into its token. -/
theorem spans_faithful {text : String} {tokens : List Token} (h : scan text = .ok tokens) : Faithful text tokens := by
  obtain ⟨cs, rfl⟩ : ∃ cs, text = String.ofList cs := ⟨text.toList, by rw [String.ofList_toList]⟩
  rw [scan, String.toList_ofList] at h
  have htiling : Tiling [] cs tokens := tiling_of_scanFrom h
  have hstands : ∀ t ∈ tokens, t.StandsIn cs := htiling.standsIn
  exact {
    within := fun t ht => (hstands t ht).within
    ordered := htiling.ordered.2
    boundaries := fun t ht => (hstands t ht).boundaries
    blank := htiling.gaps_blank
    alone := fun t ht => (hstands t ht).alone }

/-- a dot that is no decimal point, an escaped quote after a character of two bytes, and a blank of two bytes before an
operator that starts like a shorter one -/
theorem spans_of_crowded_text :
    let text := "1.x<'é\\''\u00a0>="
    let tokens : List Token :=
      [⟨⟨.number, "1"⟩, 0, 1⟩, ⟨⟨.dot, "."⟩, 1, 2⟩, ⟨⟨.identifier, "x"⟩, 2, 3⟩, ⟨⟨.operator, "<"⟩, 3, 4⟩,
        ⟨⟨.string, "é'"⟩, 4, 10⟩, ⟨⟨.operator, ">="⟩, 12, 14⟩]
    scan text = .ok tokens ∧ Faithful text tokens := by
  have h : scan "1.x<'é\\''\u00a0>=" =
      .ok [⟨⟨.number, "1"⟩, 0, 1⟩, ⟨⟨.dot, "."⟩, 1, 2⟩, ⟨⟨.identifier, "x"⟩, 2, 3⟩, ⟨⟨.operator, "<"⟩, 3, 4⟩,
        ⟨⟨.string, "é'"⟩, 4, 10⟩, ⟨⟨.operator, ">="⟩, 12, 14⟩] := by
    with_unfolding_all rfl
  exact ⟨h, spans_faithful h⟩

end Token

end Proviso
