/-
The parser as a machine with a counter of its depth.

The readers of a level have the levels below them built in. Here is the same grammar read by functions that call one another,
with a position in the list of tokens and a counter that is raised where a level is entered and set back where it is left.
Nothing in this form says that the calls end, that the counter stays in range, or how many calls are open at once. So a run
keeps a record of its moments: each time a function is entered and each time the counter is written, the number of open calls
and the value of the counter are noted. A run that does not end has no result.
-/
import Proviso.Expr.Reading

namespace Proviso.Counter

open Reading

/-- how many calls are open, and what the counter says -/
structure Moment where
  frames : Nat
  depth : Int

/-- the place of the next token, the counter, and the moments so far, the latest first -/
structure Cursor where
  pos : Nat
  depth : Int
  moments : List Moment

/-- steps on a cursor; they may be refused, and they need not end -/
abbrev Machine (α : Type) := ExceptT ParseError (StateT Cursor Option) α

/-! ## Steps -/

/-- a function is entered -/
def visit (frames : Nat) : Machine Unit := modify fun c => { c with moments := ⟨frames, c.depth⟩ :: c.moments }

/-- the counter is written -/
def setDepth (frames : Nat) (depth : Int) : StateT Cursor Option Unit :=
  modify fun c => { c with depth := depth, moments := ⟨frames, depth⟩ :: c.moments }

/-- a level is left -/
def lower (frames : Nat) : StateT Cursor Option Unit := do setDepth frames ((← get).depth - 1)

/-- one token on -/
def skip : Machine Unit := modify fun c => { c with pos := c.pos + 1 }

section

variable (tokens : List Token)

/-- where the token at a place starts, or where the last one has ended -/
def here (pos : Nat) : Nat :=
  match tokens[pos]? with
  | some t => t.start
  | none => (tokens.getLast?.map (·.stop)).getD 0

/-- refusal at the next token -/
def refuseHere {α : Type} (cause : ParseError.Cause) : Machine α := do throw ⟨cause, here tokens (← get).pos⟩

/-- a level is entered, if there is one left -/
def enter (frames : Nat) : Machine Unit := do
  if (← get).depth ≥ depthLimit then refuseHere tokens .tooDeep
  else setDepth frames ((← get).depth + 1)

def peek : Machine (Option Token) := do return tokens[(← get).pos]?

/-- whether the next lexeme is the wanted one -/
def check (want : Lexeme) : Machine Bool := do return (← peek tokens).any (·.toLexeme = want)

/-- the wanted lexeme is taken if it comes next -/
def eat (want : Lexeme) : Machine Bool := do
  if ← check tokens want then
    skip
    return true
  else return false

/-- an operator is taken if one comes next -/
def eatOperator (operator? : Lexeme → Option BinaryOp) : Machine (Option BinaryOp) := do
  match (← peek tokens).bind fun t => operator? t.toLexeme with
  | some op =>
    skip
    return some op
  | none => return none

/-- the wanted lexeme must come next -/
def expect (want : Lexeme) : Machine Unit := do
  match ← peek tokens with
  | some t => if t.toLexeme = want then skip else refuseHere tokens (.expected want.text t.text)
  | none => refuseHere tokens (.expectedBeforeEnd want.text)

/-- an identifier must come next -/
def expectIdentifier (cause : ParseError.Cause) : Machine String := do
  match ← peek tokens with
  | some t =>
    if t.kind = .identifier then
      skip
      return t.text
    else refuseHere tokens cause
  | none => refuseHere tokens cause

/-- what stands in the brackets of a path -/
def indexSegment : Machine Segment := do
  match ← peek tokens with
  | some t =>
    skip
    match segment t.toLexeme with
    | .ok s => return s
    | .error cause => throw ⟨cause, t.start⟩
  | none => refuseHere tokens .unexpectedEnd

end

/-! ## Functions -/

/-- the two chains of operands that are folded into a balanced tree -/
inductive Joint where
  | or | and

def Joint.op : Joint → BinaryOp
  | .or => .or
  | .and => .and

def Joint.lexeme : Joint → Lexeme
  | .or => disjunction
  | .and => Reading.conjunction

/-- the two chains of comparisons, nested to the left -/
inductive Rank where
  | equality | relation

def Rank.operator? : Rank → Lexeme → Option BinaryOp
  | .equality => equality?
  | .relation => relation?

/-- the tokens that the functions read -/
abbrev Source := List Token

mutual

def Source.expression (tokens : Source) (frames : Nat) : Machine Expr := do
  visit frames
  enter tokens frames
  -- the level is left after a refusal, too
  (do let result ← (tokens |>.implication (frames + 1)).run
      lower frames
      return result : StateT Cursor Option (Except ParseError Expr))
partial_fixpoint

def Source.implication (tokens : Source) (frames : Nat) : Machine Expr := do
  visit frames
  let left ← tokens |>.joined .or (frames + 1)
  if ← eat tokens arrow then
    let right ← tokens |>.expression (frames + 1)
    return .binary .implies left right
  else return left
partial_fixpoint

def Source.joined (tokens : Source) (joint : Joint) (frames : Nat) : Machine Expr := do
  visit frames
  let operands ← tokens |>.joinedOperands joint frames
  return .balanced joint.op operands
partial_fixpoint

def Source.joinedOperand (tokens : Source) (joint : Joint) (frames : Nat) : Machine Expr :=
  match joint with
  | .or => tokens |>.joined .and frames
  | .and => tokens |>.compared .equality frames
partial_fixpoint

/-- the operands of a chain, the first and after each operator another -/
def Source.joinedOperands (tokens : Source) (joint : Joint) (frames : Nat) : Machine (List Expr) := do
  let operand ← tokens |>.joinedOperand joint (frames + 1)
  if ← eat tokens joint.lexeme then
    let operands ← tokens |>.joinedOperands joint frames
    return operand :: operands
  else return [operand]
partial_fixpoint

def Source.compared (tokens : Source) (rank : Rank) (frames : Nat) : Machine Expr := do
  visit frames
  let depth := (← get).depth
  let left ← tokens |>.comparedOperand rank (frames + 1)
  let e ← tokens |>.moreComparisons rank frames left
  setDepth frames depth
  return e
partial_fixpoint

def Source.comparedOperand (tokens : Source) (rank : Rank) (frames : Nat) : Machine Expr :=
  match rank with
  | .equality => tokens |>.compared .relation frames
  | .relation => tokens |>.unary frames
partial_fixpoint

/-- the further comparisons of a chain, each one level deeper than the one before -/
def Source.moreComparisons (tokens : Source) (rank : Rank) (frames : Nat) (left : Expr) : Machine Expr := do
  match ← eatOperator tokens rank.operator? with
  | none => return left
  | some op =>
    enter tokens frames
    let right ← tokens |>.comparedOperand rank (frames + 1)
    tokens |>.moreComparisons rank frames (.binary op left right)
partial_fixpoint

def Source.unary (tokens : Source) (frames : Nat) : Machine Expr := do
  visit frames
  if ← eat tokens bang then
    enter tokens frames
    let e ← (do
      let result ← (tokens |>.unary (frames + 1)).run
      lower frames
      return result : StateT Cursor Option (Except ParseError Expr))
    return .not e
  else tokens |>.suffixed (frames + 1)
partial_fixpoint

def Source.suffixed (tokens : Source) (frames : Nat) : Machine Expr := do
  visit frames
  let depth := (← get).depth
  let e ← tokens |>.primary (frames + 1)
  let e ← tokens |>.moreSuffixes frames e
  setDepth frames depth
  return e
partial_fixpoint

/-- the suffixes of an expression -/
def Source.moreSuffixes (tokens : Source) (frames : Nat) (e : Expr) : Machine Expr := do
  let place := here tokens (← get).pos
  if ← eat tokens dot then tokens |>.propertyOf frames e place
  else if ← eat tokens openBracket then tokens |>.indexOf frames e place
  else return e
partial_fixpoint

/-- the suffixes from a property on, where its dot stands at a place; `.length` goes one level deeper -/
def Source.propertyOf (tokens : Source) (frames : Nat) (e : Expr) (place : Nat) : Machine Expr := do
  let name ← expectIdentifier tokens .noPropertyName
  if name = "length" then
    enter tokens frames
    tokens |>.moreSuffixes frames (.length e)
  else if name = "every" ∧ (← check tokens openParen) then
    let e ← tokens |>.every (frames + 1) e place
    tokens |>.moreSuffixes frames e
  else
    match e with
    | .field p => tokens |>.moreSuffixes frames (.field (p.push (.key name)))
    | _ => throw ⟨.propertyOfValue, place⟩
partial_fixpoint

/-- the suffixes from an index on, where its bracket stands at a place -/
def Source.indexOf (tokens : Source) (frames : Nat) (e : Expr) (place : Nat) : Machine Expr :=
  match e with
  | .field p => do
    let s ← indexSegment tokens
    expect tokens closeBracket
    tokens |>.moreSuffixes frames (.field (p.push s))
  | _ => throw ⟨.indexOfValue, place⟩
partial_fixpoint

def Source.every (tokens : Source) (frames : Nat) (target : Expr) (place : Nat) : Machine Expr := do
  visit frames
  match target with
  | .field p =>
    expect tokens openParen
    let param ← expectIdentifier tokens .noParameter
    expect tokens arrow
    let body ← tokens |>.expression (frames + 1)
    expect tokens closeParen
    return .every p param body
  | _ => throw ⟨.everyOfValue, place⟩
partial_fixpoint

def Source.primary (tokens : Source) (frames : Nat) : Machine Expr := do
  visit frames
  match ← peek tokens with
  | none => refuseHere tokens .unexpectedEnd
  | some t =>
    skip
    match t.kind with
    | .number =>
      match number? t.text with
      | some n => return .literal n
      | none => throw ⟨.invalidNumber t.text, t.start⟩
    | .string => return .literal (.string t.text)
    | .identifier => tokens |>.named (frames + 1) t
    | _ =>
      if t.toLexeme = openParen then
        let e ← tokens |>.expression (frames + 1)
        expect tokens closeParen
        return e
      else if t.toLexeme = openBracket then
        let items ← tokens |>.list closeBracket (frames + 1)
        return .array items
      else throw ⟨.unexpected t.text, t.start⟩
partial_fixpoint

/-- a word, a field, or a call, after its name -/
def Source.named (tokens : Source) (frames : Nat) (name : Token) : Machine Expr := do
  visit frames
  match word? name.text with
  | some l => return .literal l
  | none =>
    if ← check tokens openParen then
      match Builtin.ofName? name.text with
      | none => throw ⟨.unknownFunction name.text, name.start⟩
      | some f =>
        skip
        let args ← tokens |>.list closeParen (frames + 1)
        if f.accepts args.length then return .call f args
        else throw ⟨.wrongArity f args.length, name.start⟩
    else return .field ⟨name.text, []⟩
partial_fixpoint

def Source.list (tokens : Source) (close : Lexeme) (frames : Nat) : Machine (List Expr) := do
  visit frames
  if ← eat tokens close then return []
  else tokens |>.listItems close frames
partial_fixpoint

/-- one item or more, up to the closing lexeme -/
def Source.listItems (tokens : Source) (close : Lexeme) (frames : Nat) : Machine (List Expr) := do
  let item ← tokens |>.expression (frames + 1)
  if ← eat tokens comma then
    let items ← tokens |>.listItems close frames
    return item :: items
  else
    expect tokens close
    return [item]
partial_fixpoint

end

end Proviso.Counter
