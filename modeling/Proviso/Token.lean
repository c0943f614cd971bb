/-
Lexemes and tokens: the words of the constraint language.

A lexeme is a kind and a text; for a string the text is its content. A token is a lexeme with its span, the byte
offsets in the UTF-8 form of the expression where it starts and where it has ended.
-/

namespace Proviso

/-- the kinds of lexemes -/
inductive Kind where
  | identifier | number | string | operator | dot | comma | paren | bracket | arrow
  deriving DecidableEq, Repr

/-- the name of a kind -/
def Kind.name : Kind → String
  | .identifier => "identifier"
  | .number => "number"
  | .string => "string"
  | .operator => "operator"
  | .dot => "dot"
  | .comma => "comma"
  | .paren => "paren"
  | .bracket => "bracket"
  | .arrow => "arrow"

/-- every kind -/
def Kind.all : List Kind := [.identifier, .number, .string, .operator, .dot, .comma, .paren, .bracket, .arrow]

/-- the kind that a name stands for -/
def Kind.ofName? (name : String) : Option Kind := Kind.all.find? (·.name = name)

/-- a word of the language -/
structure Lexeme where
  kind : Kind
  text : String
  deriving DecidableEq, Repr

/-- a lexeme and the bytes it takes -/
structure Token extends Lexeme where
  start : Nat
  stop : Nat
  deriving DecidableEq, Repr

-- a sum starts at the zero of the core library, whatever else is in scope
attribute [local instance (2000)] Zero.ofOfNat0

/-- how many bytes some characters take in UTF-8 -/
def byteSize (cs : List Char) : Nat := (cs.map Char.utf8Size).sum

theorem byteSize_append (cs ds : List Char) : byteSize (cs ++ ds) = byteSize cs + byteSize ds := by
  simp [byteSize]

end Proviso
