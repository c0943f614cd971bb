/-
Splitting an expression into tokens.

Blanks separate lexemes and count for nothing else. What is not blank starts a lexeme: `lexeme c rest` tells which one
starts with `c` and how many of the characters after `c` belong to it, so that the rest is shorter and scanning ends.
Of two spellings the longer one wins. Two things are refused, a string that never ends and a character that starts
nothing; the position of the refusal is the byte offset of that quote or character.
-/
import Proviso.Token
import Proviso.Text.Blank

namespace Proviso

/-- why a text has no tokens -/
inductive ScanError.Cause where
  | unterminatedString
  | unexpected (c : Char)
  deriving DecidableEq, Repr

/-- a text that has no tokens, and the byte offset where that shows -/
structure ScanError where
  cause : ScanError.Cause
  position : Nat
  deriving DecidableEq, Repr

/-- what is wrong with the text -/
def ScanError.message (e : ScanError) : String :=
  match e.cause with
  | .unterminatedString => "Unterminated string literal"
  | .unexpected c => "Unexpected character: " ++ String.singleton c

namespace Token

/-- a letter or an underscore, with which an identifier starts -/
def startsIdentifier (c : Char) : Bool := c.isAlpha || c == '_'

/-- a letter, a digit or an underscore -/
def continuesIdentifier (c : Char) : Bool := c.isAlphanum || c == '_'

/-- the fixed spelling that starts with `c`, and how many of the following characters belong to it -/
def symbol? (c : Char) (rest : List Char) : Option (Lexeme × Nat) :=
  match c, rest with
  | '=', '>' :: _ => some (⟨.arrow, "=>"⟩, 1)
  | '=', '=' :: _ => some (⟨.operator, "=="⟩, 1)
  | '!', '=' :: _ => some (⟨.operator, "!="⟩, 1)
  | '<', '=' :: _ => some (⟨.operator, "<="⟩, 1)
  | '>', '=' :: _ => some (⟨.operator, ">="⟩, 1)
  | '&', '&' :: _ => some (⟨.operator, "&&"⟩, 1)
  | '|', '|' :: _ => some (⟨.operator, "||"⟩, 1)
  | '<', _ => some (⟨.operator, "<"⟩, 0)
  | '>', _ => some (⟨.operator, ">"⟩, 0)
  | '!', _ => some (⟨.operator, "!"⟩, 0)
  | '.', _ => some (⟨.dot, "."⟩, 0)
  | ',', _ => some (⟨.comma, ","⟩, 0)
  | '(', _ => some (⟨.paren, "("⟩, 0)
  | ')', _ => some (⟨.paren, ")"⟩, 0)
  | '[', _ => some (⟨.bracket, "["⟩, 0)
  | ']', _ => some (⟨.bracket, "]"⟩, 0)
  | _, _ => none

/-- The rest of a string after its opening quote: the content, and how many characters it takes with its closing quote.
A backslash escapes a quote and a backslash; before anything else it stands for itself. -/
def stringBody? : List Char → Option (List Char × Nat)
  | [] => none
  | '\x27' :: _ => some ([], 1)
  | '\\' :: '\x27' :: rest => (stringBody? rest).map fun (cs, n) => ('\x27' :: cs, n + 2)
  | '\\' :: '\\' :: rest => (stringBody? rest).map fun (cs, n) => ('\\' :: cs, n + 2)
  | c :: rest => (stringBody? rest).map fun (cs, n) => (c :: cs, n + 1)

/-- Digits after the first of a number: more digits, and a dot with digits when a digit follows the dot. -/
def numberBody (rest : List Char) : List Char :=
  let whole := rest.takeWhile Char.isDigit
  match rest.dropWhile Char.isDigit with
  | '.' :: d :: more => if d.isDigit then whole ++ '.' :: d :: more.takeWhile Char.isDigit else whole
  | _ => whole

/-- the lexeme that starts with `c`, and how many of the following characters belong to it -/
def lexeme (c : Char) (rest : List Char) : Except ScanError.Cause (Lexeme × Nat) :=
  match symbol? c rest with
  | some found => .ok found
  | none =>
    if c = '\x27' then
      match stringBody? rest with
      | some (cs, n) => .ok (⟨.string, String.ofList cs⟩, n)
      | none => .error .unterminatedString
    else if c.isDigit then
      let body := numberBody rest
      .ok (⟨.number, String.ofList (c :: body)⟩, body.length)
    else if startsIdentifier c then
      let body := rest.takeWhile continuesIdentifier
      .ok (⟨.identifier, String.ofList (c :: body)⟩, body.length)
    else .error (.unexpected c)

/-- the tokens of some characters, the first of which stands at byte `position` -/
def scanFrom (position : Nat) : List Char → Except ScanError (List Token)
  | [] => .ok []
  | c :: rest =>
    if Text.isBlank c then scanFrom (position + c.utf8Size) rest
    else
      match lexeme c rest with
      | .error cause => .error ⟨cause, position⟩
      | .ok (l, n) =>
        let stop := position + byteSize (c :: rest.take n)
        match scanFrom stop (rest.drop n) with
        | .error e => .error e
        | .ok tokens => .ok ({ l with start := position, stop := stop } :: tokens)
termination_by cs => cs.length
decreasing_by all_goals (simp only [List.length_cons, List.length_drop]; omega)

/-- the tokens of an expression -/
def scan (text : String) : Except ScanError (List Token) := scanFrom 0 text.toList

end Token

end Proviso
