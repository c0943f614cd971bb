/-
Reading a JSON value from its text.

The text is split into lexemes, and these are taken one after another by `step`, which keeps a stack of the arrays and
objects that are still open. A number written as an integer that fits 64 bits is that integer; every other number is
the nearest double, also where a reader that rounds on the way would come out one place off. Of two fields of an object
with one name the last counts.
-/
import Proviso.Json

namespace Proviso.Json.Reader

/-- the punctuation of JSON -/
inductive Mark where
  | openArray | closeArray | openObject | closeObject | comma | colon
  deriving DecidableEq

/-- a piece of JSON text: punctuation, a string, or any other scalar -/
inductive Piece where
  | mark (m : Mark)
  | text (s : String)
  | scalar (v : Json)

/-- the value of a hexadecimal digit -/
def hexDigit? (c : Char) : Option Nat :=
  if c.isDigit then some (c.toNat - 48)
  else if 'a' ≤ c ∧ c ≤ 'f' then some (c.toNat - 87)
  else if 'A' ≤ c ∧ c ≤ 'F' then some (c.toNat - 55)
  else none

/-- the 16-bit unit that four hexadecimal digits denote -/
def unit? (a b c d : Char) : Option Nat := do
  return (((← hexDigit? a) * 16 + (← hexDigit? b)) * 16 + (← hexDigit? c)) * 16 + (← hexDigit? d)

/-- the character that stands for one letter after a backslash -/
def escape? (c : Char) : Option Char :=
  [('\x22', '\x22'), ('\\', '\\'), ('/', '/'), ('b', '\x08'), ('f', '\x0c'), ('n', '\n'), ('r', '\r'),
    ('t', '\t')].lookup c

/-- The rest of a string after its opening quote: the content, and how many characters it takes with its closing quote.
A character past 16 bits is written as two units, the first from 0xd800 and the second from 0xdc00. -/
def stringBody? : List Char → Option (List Char × Nat)
  | [] => none
  | '\x22' :: _ => some ([], 1)
  | '\\' :: 'u' :: a :: b :: c :: d :: '\\' :: 'u' :: e :: f :: g :: h :: rest => do
    let high ← unit? a b c d
    if 0xd800 ≤ high ∧ high < 0xdc00 then
      let low ← unit? e f g h
      let (cs, n) ← stringBody? rest
      return (Char.ofNat (0x10000 + (high - 0xd800) * 0x400 + (low - 0xdc00)) :: cs, n + 12)
    else
      let (cs, n) ← stringBody? ('\\' :: 'u' :: e :: f :: g :: h :: rest)
      return (Char.ofNat high :: cs, n + 6)
  | '\\' :: 'u' :: a :: b :: c :: d :: rest => do
    let unit ← unit? a b c d
    let (cs, n) ← stringBody? rest
    return (Char.ofNat unit :: cs, n + 6)
  | '\\' :: c :: rest => do
    let e ← escape? c
    let (cs, n) ← stringBody? rest
    return (e :: cs, n + 2)
  | c :: rest => do
    let (cs, n) ← stringBody? rest
    return (c :: cs, n + 1)

/-- the characters that numbers are written with -/
def isNumeric (c : Char) : Bool := c.isDigit || c == '-' || c == '+' || c == '.' || c == 'e' || c == 'E'

/-- the value of a number: an integer that fits 64 bits, or else a double -/
def number? (cs : List Char) : Option Json :=
  match Decimal.canonical? cs with
  | some n => some (ofInt n)
  | none => (Decimal.double? cs).map ofDouble

/-- the words of JSON -/
def words : List (List Char × Json) :=
  [(['t', 'r', 'u', 'e'], .bool true), (['f', 'a', 'l', 's', 'e'], .bool false), (['n', 'u', 'l', 'l'], .null)]

/-- the piece that starts with `c`, and how many of the following characters belong to it -/
def piece? (c : Char) (rest : List Char) : Option (Piece × Nat) :=
  match c with
  | '[' => some (.mark .openArray, 0)
  | ']' => some (.mark .closeArray, 0)
  | '\x7b' => some (.mark .openObject, 0)
  | '\x7d' => some (.mark .closeObject, 0)
  | ',' => some (.mark .comma, 0)
  | ':' => some (.mark .colon, 0)
  | '\x22' => (stringBody? rest).map fun (cs, n) => (.text (String.ofList cs), n)
  | _ =>
    if c = '-' ∨ c.isDigit then
      let more := rest.takeWhile isNumeric
      (number? (c :: more)).map fun v => (.scalar v, more.length)
    else (words.find? fun w => w.1.isPrefixOf (c :: rest)).map fun w => (.scalar w.2, w.1.length - 1)

/-- the pieces of a text -/
def pieces? : List Char → Option (List Piece)
  | [] => some []
  | c :: rest =>
    if c = ' ' ∨ c = '\t' ∨ c = '\n' ∨ c = '\r' then pieces? rest
    else
      match piece? c rest with
      | none => none
      | some (p, n) => (pieces? (rest.drop n)).map (p :: ·)
termination_by cs => cs.length
decreasing_by all_goals (simp only [List.length_cons, List.length_drop]; omega)

/-- An array or object that is still open, with what it holds so far, the latest first. The fields of an object keep that
order when it closes: the first of a name counts in a `Record`, and that is the last in the text. -/
inductive Frame where
  | array (done : List Json)
  | object (done : Record)
  | field (done : Record) (name : String)

/-- what the reader waits for; `first` tells that the container is still empty and may close at once -/
inductive Awaits where
  | value (first : Bool)
  | name (first : Bool)
  | colon (name : String)
  | more

/-- the reader between two pieces: the open containers, what is awaited, and the finished value -/
structure State where
  frames : List Frame
  awaits : Awaits
  result : Option Json

/-- before the first piece -/
def start : State := ⟨[], .value false, none⟩

/-- a value has been completed -/
def complete (v : Json) : List Frame → Option State
  | [] => some ⟨[], .more, some v⟩
  | .array done :: outer => some ⟨.array (v :: done) :: outer, .more, none⟩
  | .field done name :: outer => some ⟨.object ((name, v) :: done) :: outer, .more, none⟩
  | .object _ :: _ => none

/-- one piece -/
def step (s : State) (p : Piece) : Option State :=
  match s.result, s.awaits, s.frames, p with
  | none, .value _, frames, .scalar v => complete v frames
  | none, .value _, frames, .text t => complete (.string t) frames
  | none, .value _, frames, .mark .openArray => some ⟨.array [] :: frames, .value true, none⟩
  | none, .value _, frames, .mark .openObject => some ⟨.object [] :: frames, .name true, none⟩
  | none, .value true, .array [] :: outer, .mark .closeArray => complete (.array []) outer
  | none, .name _, frames, .text t => some ⟨frames, .colon t, none⟩
  | none, .name true, .object [] :: outer, .mark .closeObject => complete (.object []) outer
  | none, .colon name, .object done :: outer, .mark .colon => some ⟨.field done name :: outer, .value false, none⟩
  | none, .more, .array done :: outer, .mark .comma => some ⟨.array done :: outer, .value false, none⟩
  | none, .more, .array done :: outer, .mark .closeArray => complete (.array done.reverse) outer
  | none, .more, .object done :: outer, .mark .comma => some ⟨.object done :: outer, .name false, none⟩
  | none, .more, .object done :: outer, .mark .closeObject => complete (.object done) outer
  | _, _, _, _ => none

end Reader

/-- the value that a JSON text denotes -/
def ofText? (text : String) : Option Json := do
  let pieces ← Reader.pieces? text.toList
  (← pieces.foldlM Reader.step Reader.start).result

end Proviso.Json
