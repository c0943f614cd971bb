/-
A store of expressions that have been read, for judging many records by the same constraints.

The store holds at most `capacity` expressions, each under its text, and the order in which they came. Reading a text
that it holds gives the stored expression. A new expression is taken in, and while there is no room for it the oldest
one goes. With capacity zero nothing is kept. A text that is malformed leaves the store as it is.
-/
import Proviso.Eval
import Std.Data.HashMap

namespace Proviso

/-- the expressions held, and their texts from the oldest to the newest -/
structure Store where
  entries : Std.HashMap String Expr
  order : List String

namespace Store

/-- the store that holds nothing -/
def empty : Store := ⟨∅, []⟩

/-- how many expressions are held -/
def size (s : Store) : Nat := s.entries.size

/-- how many expressions a store holds unless told otherwise -/
def defaultCapacity : Nat := 1024

/-- what making room came to: the store, the texts that went, and whether the order ran out and everything went -/
structure Room where
  store : Store
  gone : List String
  cleared : Bool

/-- Lets the oldest expressions go until fewer than `capacity` are left. If the order runs out first, everything goes. -/
def makeRoom (capacity : Nat) (entries : Std.HashMap String Expr) : List String → Room
  | [] => if entries.size < capacity then ⟨⟨entries, []⟩, [], false⟩ else ⟨empty, [], true⟩
  | oldest :: order =>
    if entries.size < capacity then ⟨⟨entries, oldest :: order⟩, [], false⟩
    else
      let room := makeRoom capacity (entries.erase oldest) order
      { room with gone := oldest :: room.gone }

/-- the store with one more expression -/
def insert (s : Store) (text : String) (e : Expr) : Store := ⟨s.entries.insert text e, s.order ++ [text]⟩

/-- what reading a text gave: the expression, whether it was held already, the texts that went to make room, and whether
the order ran out in doing so -/
structure Reading where
  expr : Except SyntaxError Expr
  hit : Bool
  evicted : List String := []
  cleared : Bool := false

/-- Takes in an expression that was not held when its text was looked up. If the text has come in since then, the store
stays as it is. -/
def takeIn (capacity : Nat) (s : Store) (text : String) (e : Expr) : Reading × Store :=
  if capacity = 0 then ({ expr := .ok e, hit := false }, s)
  else if text ∈ s.entries then ({ expr := .ok e, hit := false }, s)
  else
    let room := makeRoom capacity s.entries s.order
    ({ expr := .ok e, hit := false, evicted := room.gone, cleared := room.cleared }, room.store.insert text e)

/-- Reads a text through the store. Nothing comes between looking it up and taking it in, so what is not held at first is
not held then either. -/
def read (capacity : Nat) (s : Store) (text : String) : Reading × Store :=
  match s.entries[text]? with
  | some e => ({ expr := .ok e, hit := true }, s)
  | none =>
    match Expr.ofText? text with
    | .error e => ({ expr := .error e, hit := false }, s)
    | .ok e => s.takeIn capacity text e

/-- a use of the store: to read a text, or to judge a record by it -/
inductive Request where
  | compile (text : String)
  | evaluate (context : Json) (text : String)

/-- the text that a request reads -/
def Request.text : Request → String
  | .compile text => text
  | .evaluate _ text => text

/-- what a request is answered with -/
inductive Answer where
  | expr (e : Except SyntaxError Expr)
  | verdict (b : Except SyntaxError Bool)

/-- the answer to a request whose text has been read -/
def Request.answer (options : Options) (clock : Instant) (e : Except SyntaxError Expr) : Request → Answer
  | .compile _ => .expr e
  | .evaluate context _ => .verdict (e.map fun e => e.holds { context, options, clock })

/-- one request: the answer, what reading did, and the store afterwards -/
def step (options : Options) (capacity : Nat) (clock : Instant) (s : Store) (r : Request) :
    Answer × Reading × Store :=
  let (reading, after) := s.read capacity r.text
  (r.answer options clock reading.expr, reading, after)

end Store

end Proviso
