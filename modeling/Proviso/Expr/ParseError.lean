/-
Refusals of tokens: why they are no expression, and where that shows.
-/
import Proviso.Builtin

namespace Proviso

/-- how deep expressions may nest -/
def depthLimit : Nat := 32

/-- why lexemes are no expression -/
inductive ParseError.Cause where
  | unexpectedEnd
  | unexpected (text : String)
  | unexpectedInIndex (text : String)
  | expected (want found : String)
  | expectedBeforeEnd (want : String)
  | noPropertyName
  | noParameter
  | propertyOfValue
  | indexOfValue
  | everyOfValue
  | invalidIndex (text : String)
  | invalidNumber (text : String)
  | unknownFunction (name : String)
  | wrongArity (f : Builtin) (given : Nat)
  | tooDeep
  deriving DecidableEq, Repr

/-- tokens that are no expression, and the byte offset where that shows -/
structure ParseError where
  cause : ParseError.Cause
  position : Nat
  deriving DecidableEq, Repr

/-- the argument counts that a builtin takes, as text -/
def Builtin.arityText (f : Builtin) : String :=
  if f.leastArgs = f.mostArgs then toString f.leastArgs
  else toString f.leastArgs ++ " to " ++ toString f.mostArgs

/-- what is wrong with the tokens -/
def ParseError.message (e : ParseError) : String :=
  match e.cause with
  | .unexpectedEnd => "Unexpected end of expression"
  | .unexpected text => "Unexpected token '" ++ text ++ "'"
  | .unexpectedInIndex text => "Unexpected token '" ++ text ++ "' in index"
  | .expected want found => "Expected '" ++ want ++ "' but found '" ++ found ++ "'"
  | .expectedBeforeEnd want => "Expected '" ++ want ++ "' but reached end of expression"
  | .noPropertyName => "Expected property name after '.'"
  | .noParameter => "Expected lambda parameter"
  | .propertyOfValue => "Property access requires a field path"
  | .indexOfValue => "Index access requires a field path"
  | .everyOfValue => "'.every' requires a field path"
  | .invalidIndex text => "Invalid index '" ++ text ++ "'"
  | .invalidNumber text => "Invalid number '" ++ text ++ "'"
  | .unknownFunction name => "Unknown function '" ++ name ++ "'"
  | .wrongArity f given =>
    "Function '" ++ f.name ++ "' expects " ++ f.arityText ++ " argument(s), got " ++ toString given
  | .tooDeep => "Expression nesting exceeds maximum depth of " ++ toString depthLimit

end Proviso
