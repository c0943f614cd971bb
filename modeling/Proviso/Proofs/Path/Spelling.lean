/-
Spellings of field paths.

A path is spelled as its root and then its segments, one after the other: a position in brackets, a key in brackets as
a quoted string, or a key after a dot. Only a key that is an identifier can stand after a dot, and `length` cannot, since
it asks for a length there; any key can be quoted. Each spelling is read as the path that it spells
(`spellings_read_back`). What carries the proof is that the spelling so far is a phrase of its own before anything that
does not go on an identifier (`Spelling.phrase`), so that the next segment only adds its own lexemes.

The text of a path puts all its keys after dots, so it is a spelling when they can stand there (`Plain.spelling`).
-/
import Mathlib.Data.List.Induction
import Proviso.Proofs.Grammar.Text

namespace Proviso

open Token Grammar Reading

/-! ## Identifiers -/

/-- a letter or an underscore, and then letters, digits and underscores -/
def Token.isIdentifier (name : String) : Bool :=
  match name.toList with
  | [] => false
  | c :: cs => startsIdentifier c && cs.all continuesIdentifier

theorem Token.exists_of_isIdentifier {name : String} (h : isIdentifier name = true) :
    ∃ c cs, name.toList = c :: cs ∧ startsIdentifier c = true ∧ ∀ x ∈ cs, continuesIdentifier x = true := by
  unfold isIdentifier at h
  split at h
  · exact absurd h (by decide)
  · next c cs hname =>
    rw [Bool.and_eq_true, List.all_eq_true] at h
    exact ⟨c, cs, hname, h⟩

theorem Lexeme.writable_identifier {name : String} (h : isIdentifier name = true) :
    Lexeme.Writable ⟨.identifier, name⟩ := by
  obtain ⟨c, cs, hname, hc, hcs⟩ := exists_of_isIdentifier h
  rw [← String.ofList_toList (s := name), hname]
  exact .identifier c cs hc hcs

/-! ## Spelling a path -/

namespace Path

/-- `text` spells the path: its root, and then each segment in one of the ways there are -/
inductive Spelling : Path → String → Prop where
  | root {name : String} (identifier : isIdentifier name = true) (free : name ∉ literalWords) :
    Spelling ⟨name, []⟩ name
  | index {p : Path} {text : String} (path : Spelling p text) (i : UInt64) :
    Spelling (p.push (.index i)) (text ++ ("[" ++ toString i.toNat ++ "]"))
  | quoted {p : Path} {text : String} (path : Spelling p text) (key : String) :
    Spelling (p.push (.key key)) (text ++ ("['" ++ String.ofList (escaped key.toList) ++ "']"))
  | dotted {p : Path} {text key : String} (path : Spelling p text) (identifier : isIdentifier key = true)
    (other : key ≠ "length") : Spelling (p.push (.key key)) (text ++ ("." ++ key))

/-- the path starts at a field of the record -/
def Rooted (p : Path) : Prop := isIdentifier p.root = true ∧ p.root ∉ literalWords

/-- the keys of the path can all stand after a dot -/
structure Plain (p : Path) : Prop where
  rooted : p.Rooted
  keys : ∀ key, .key key ∈ p.rest → isIdentifier key = true ∧ key ≠ "length"

/-- a path is its root, with one segment after the other at the end -/
theorem rest_induction {motive : Path → Prop} (root : ∀ name, motive ⟨name, []⟩)
    (push : ∀ p s, motive p → motive (p.push s)) (p : Path) : motive p := by
  obtain ⟨name, rest⟩ := p
  induction rest using List.reverseRecOn with
  | nil => exact root name
  | append_singleton rest s ih => exact push ⟨name, rest⟩ s ih

theorem exists_spelling (p : Path) : p.Rooted → ∃ text, Spelling p text := by
  induction p using rest_induction with
  | root name =>
    rintro ⟨hname, hfree⟩
    exact ⟨name, .root hname hfree⟩
  | push p s ih =>
    intro hrooted
    obtain ⟨text, htext⟩ := ih hrooted
    cases s with
    | key key => exact ⟨_, htext.quoted key⟩
    | index i => exact ⟨_, htext.index i⟩

theorem text_push (p : Path) (s : Segment) : (p.push s).text = p.text ++ segmentText s := by
  simp [text, push]

/-- the text of a path is a spelling of it when its keys can stand after dots -/
theorem Plain.spelling (p : Path) : p.Plain → Spelling p p.text := by
  induction p using rest_induction with
  | root name =>
    rintro ⟨⟨hname, hfree⟩, -⟩
    exact .root hname hfree
  | push p s ih =>
    rintro ⟨hrooted, hkeys⟩
    have hpath := ih ⟨hrooted, fun key hkey => hkeys key (List.mem_append_left _ hkey)⟩
    rw [text_push]
    cases s with
    | key key =>
      obtain ⟨hkey, hother⟩ := hkeys key (List.mem_append_right _ List.mem_cons_self)
      exact hpath.dotted hkey hother
    | index i => exact hpath.index i

/-! ## Reading it back -/

/-- a position or a quoted key in brackets is found before anything: both end before the bracket that closes them -/
theorem reaches_bracketed {l : Lexeme} (hl : l.Writable) (rest : List Char) (hends : l.EndsBefore (']' :: rest)) :
    Reaches ('[' :: (l.written ++ ']' :: rest)) [openBracket, l, closeBracket] rest := by
  have hopen : Reaches ('[' :: (l.written ++ ']' :: rest)) [openBracket] (l.written ++ ']' :: rest) :=
    reaches_written (.symbol openBracket (by decide)) trivial
  have hclose : Reaches (']' :: rest) [closeBracket] rest :=
    reaches_written (.symbol closeBracket (by decide)) trivial
  exact hopen.trans ((reaches_written hl hends).trans hclose)

/-- an identifier after a dot is found before anything that does not go on it -/
theorem reaches_dotted {name : String} (hname : isIdentifier name = true) {rest : List Char}
    (hrest : ∀ c ∈ rest.head?, continuesIdentifier c = false) :
    Reaches ('.' :: (name.toList ++ rest)) [dot, ⟨.identifier, name⟩] rest := by
  have hdot : Reaches ('.' :: (name.toList ++ rest)) [dot] (name.toList ++ rest) :=
    reaches_written (.symbol dot (by decide)) trivial
  exact hdot.trans (reaches_written (Lexeme.writable_identifier hname) hrest)

/-- What spells a path is a phrase for it at every level, and is found so before anything that does not go on an
identifier. -/
theorem Spelling.phrase {p : Path} {text : String} (h : Spelling p text) :
    ∃ ls, (∀ d, Derives (.suffixes 0) d ls (.field p)) ∧
      ∀ rest, (∀ c ∈ rest.head?, continuesIdentifier c = false) → Reaches (text.toList ++ rest) ls rest := by
  -- a bracket and a dot go on no identifier, so the spelling so far is found before each segment
  have hnext : ∀ {c : Char} {cs : List Char}, continuesIdentifier c = false →
      ∀ x ∈ (c :: cs).head?, continuesIdentifier x = false := by simp
  induction h with
  | @root name hname hfree =>
    refine ⟨[⟨.identifier, name⟩], fun d => .bare (.field (word?_eq_none.2 hfree)), fun rest hrest => ?_⟩
    exact reaches_written (Lexeme.writable_identifier hname) hrest
  | @index p text _ i ih =>
    obtain ⟨ls, hpath, hreaches⟩ := ih
    have hnumeral := Decimal.numeral_toString i.toNat
    refine ⟨ls ++ [openBracket, ⟨.number, toString i.toNat⟩, closeBracket], fun d => ?_, fun rest _ => ?_⟩
    · have hindex := hnumeral.index?_eq i.toNat_lt
      rw [UInt64.ofNat_toNat] at hindex
      exact .position (hpath d) hindex
    · have hwritable : Lexeme.Writable ⟨.number, toString i.toNat⟩ := by
        have h := numeral_writable hnumeral
        rwa [String.ofList_toList] at h
      have hends : Lexeme.EndsBefore ⟨.number, toString i.toNat⟩ (']' :: rest) :=
        Lexeme.endsBefore_of_delimited (.inl rfl) (delimited_cons.2 (by decide))
      have hsegment := (hreaches _ (hnext (by decide))).trans (reaches_bracketed hwritable rest hends)
      have htext : (text ++ ("[" ++ toString i.toNat ++ "]")).toList ++ rest =
          text.toList ++ '[' :: ((toString i.toNat).toList ++ ']' :: rest) := by simp
      rw [htext]
      exact hsegment
  | @quoted p text _ key ih =>
    obtain ⟨ls, hpath, hreaches⟩ := ih
    refine ⟨ls ++ [openBracket, ⟨.string, key⟩, closeBracket], fun d => .quotedKey (hpath d), fun rest _ => ?_⟩
    have hsegment := (hreaches _ (hnext (by decide))).trans (reaches_bracketed (.string key) rest trivial)
    have htext : (text ++ ("['" ++ String.ofList (escaped key.toList) ++ "']")).toList ++ rest =
        text.toList ++ '[' :: ('\x27' :: (escaped key.toList ++ ['\x27']) ++ ']' :: rest) := by simp
    rw [htext]
    exact hsegment
  | @dotted p text key _ hkey hother ih =>
    obtain ⟨ls, hpath, hreaches⟩ := ih
    refine ⟨ls ++ [dot, ⟨.identifier, key⟩], fun d => .key (hpath d) hother, fun rest hrest => ?_⟩
    have hsegment := (hreaches _ (hnext (by decide))).trans (reaches_dotted hkey hrest)
    have htext : (text ++ ("." ++ key)).toList ++ rest = text.toList ++ '.' :: (key.toList ++ rest) := by simp
    rw [htext]
    exact hsegment

/-- what spells a path starts as its root does -/
theorem Spelling.start {p : Path} {text : String} (h : Spelling p text) :
    ∃ c cs, text.toList = c :: cs ∧ startsIdentifier c = true := by
  induction h with
  | @root name hname _ =>
    obtain ⟨c, cs, hcs, hc, -⟩ := exists_of_isIdentifier hname
    exact ⟨c, cs, hcs, hc⟩
  | index _ _ ih | quoted _ _ ih | dotted _ _ _ ih =>
    obtain ⟨c, cs, hcs, hc⟩ := ih
    exact ⟨c, _, by rw [String.toList_append, hcs, List.cons_append], hc⟩

theorem Spelling.termText {p : Path} {text : String} (h : Spelling p text) : TermText text (.field p) where
  lexemes := by
    obtain ⟨ls, hpath, hreaches⟩ := h.phrase
    exact ⟨ls, fun d => .term (hpath d), fun rest hrest => hreaches rest fun c hc => (hrest c hc).1⟩
  start := by
    obtain ⟨c, cs, hcs, hc⟩ := h.start
    rw [hcs]
    intro hequals
    obtain rfl : c = '=' := Option.some.inj hequals
    exact absurd hc (by decide)

/-- **Field paths are read back from their spellings.** Every path that starts at a field has a spelling; whatever
segments it has, each spelling of it is read as that path, and so is its text when all its keys can stand after dots. -/
theorem spellings_read_back :
    (∀ p : Path, p.Rooted → ∃ text, Spelling p text) ∧
    (∀ (p : Path) (text : String), Spelling p text → Expr.ofText? text = .ok (.field p)) ∧
    ∀ p : Path, p.Plain → Expr.ofText? p.text = .ok (.field p) := by
  refine ⟨exists_spelling, fun p text h => h.termText.ofText?_eq, fun p h => ?_⟩
  exact h.spelling.termText.ofText?_eq

/-- a builtin as the root, `every`, the last position and a literal's word as segments, and quoted keys that hold a quote,
a backslash, nothing, or `length`; and a text with all its keys after dots -/
theorem quoted_spelling_read_back :
    let p : Path := ⟨"now", [.key "every", .index 18446744073709551615, .key "it's\\", .key "", .key "length", .key "true"]⟩
    let text := "now.every[18446744073709551615]['it\\'s\\\\']['']['length'].true"
    let q : Path := ⟨"links", [.index 0, .key "every", .key "null"]⟩
    Spelling p text ∧ Expr.ofText? text = .ok (.field p) ∧
      q.Plain ∧ Expr.ofText? "links[0].every.null" = .ok (.field q) := by
  intro p text q
  have h : Spelling p text :=
    ((((((Spelling.root (by decide) (by decide)).dotted (by decide) (by decide)).index 18446744073709551615).quoted
      "it's\\").quoted "").quoted "length").dotted (by decide) (by decide)
  have hplain : q.Plain := ⟨⟨by decide, by decide⟩, by simp [q]; decide⟩
  exact ⟨h, spellings_read_back.2.1 p text h, hplain, spellings_read_back.2.2 q hplain⟩

end Path

end Proviso
