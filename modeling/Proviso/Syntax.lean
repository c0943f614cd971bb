/-
From text to expression: tokens first, then the tree. A text is refused for one of two reasons, and the refusal names
the byte offset where it shows.
-/
import Proviso.Token.Scan
import Proviso.Expr.Reading

namespace Proviso

/-- why a text is no expression -/
inductive SyntaxError where
  | scan (e : ScanError)
  | parse (e : ParseError)
  deriving DecidableEq, Repr

namespace SyntaxError

/-- the byte offset where the fault shows -/
def position : SyntaxError → Nat
  | .scan e => e.position
  | .parse e => e.position

/-- what is wrong, without the place -/
def message : SyntaxError → String
  | .scan e => e.message
  | .parse e => e.message

/-- the whole report: which step refused, why, and where -/
def report (e : SyntaxError) : String :=
  let step := match e with
    | .scan _ => "tokenizer error: "
    | .parse _ => "parse error: "
  step ++ e.message ++ " at position " ++ toString e.position

end SyntaxError

/-- the expression that a text denotes -/
def Expr.ofText? (text : String) : Except SyntaxError Expr :=
  match Token.scan text with
  | .error e => .error (.scan e)
  | .ok tokens =>
    match Expr.ofTokens? tokens with
    | .error e => .error (.parse e)
    | .ok e => .ok e

end Proviso
