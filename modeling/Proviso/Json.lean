/-
JSON values as records carry them.

A number is an integer of 64 bits, signed or unsigned, or a finite double; the two are kept apart, because an integer
converts to an exact amount and a double does not. An object is a finite map written as a list of fields: of two fields
with one name the first counts and the other is hidden, so `Record.get?`, `Record.entries` and everything built on them
see a map. Looking into a value that has no such part gives `none`, never an error.
-/
import Proviso.Decimal

namespace Proviso

/-- an integer that fits 64 bits, signed or unsigned -/
structure Word where
  val : Int
  lower : -(2 ^ 63) ≤ val
  upper : val < 2 ^ 64
  deriving DecidableEq

/-- the word with this value, when it fits -/
def Word.ofInt? (n : Int) : Option Word :=
  if h : -(2 ^ 63) ≤ n ∧ n < 2 ^ 64 then some ⟨n, h.1, h.2⟩ else none

/-- a JSON number -/
inductive Number where
  | int (n : Word)
  | float (x : Double.Finite)
  deriving DecidableEq

/-- the number as a double: integers go to the nearest one -/
def Number.toDouble : Number → Double
  | .int n => .ofInt n.val
  | .float x => .finite x

/-- a JSON value -/
inductive Json where
  | null
  | bool (b : Bool)
  | number (n : Number)
  | string (s : String)
  | array (items : List Json)
  | object (fields : List (String × Json))

/-- the fields of an object; also names bound to values, the innermost first -/
abbrev Record := List (String × Json)

namespace Record

/-- the value under a name: that of the first field so named -/
def get? : Record → String → Option Json
  | [], _ => none
  | (name, v) :: rest, key => if name = key then some v else get? rest key

/-- the record with one name set to a value -/
def set (r : Record) (name : String) (v : Json) : Record := (name, v) :: r

/-- the fields that neither an earlier field nor a name in `hidden` hides -/
def visible (hidden : List String) : Record → Record
  | [] => []
  | (name, v) :: rest => if name ∈ hidden then visible hidden rest else (name, v) :: visible (name :: hidden) rest

/-- the fields that count, one for each name -/
def entries (r : Record) : Record := visible [] r

/-- the names, each once -/
def keys (r : Record) : List String := r.entries.map (·.1)

/-- the values of the fields that count -/
def values (r : Record) : List Json := r.entries.map (·.2)

/-- how many names there are -/
def size (r : Record) : Nat := r.entries.length

theorem get?_nil (key : String) : get? [] key = none := rfl

theorem get?_set (r : Record) (name key : String) (v : Json) :
    (r.set name v).get? key = if name = key then some v else r.get? key := rfl

end Record

namespace Json

/-- a double as a value: null when it is not finite -/
def ofDouble : Double → Json
  | .finite x => .number (.float x)
  | _ => .null

/-- an integer as a value: exact when it fits 64 bits, and the nearest double otherwise -/
def ofInt (n : Int) : Json :=
  match Word.ofInt? n with
  | some w => .number (.int w)
  | none => ofDouble (.ofInt n)

/-- the decimal fraction `digits · 10^-places` -/
def decimal (digits : Nat) (places : Nat) : Json := ofDouble (.ofDecimal false digits (-places))

def isNull : Json → Bool
  | .null => true
  | _ => false

def string? : Json → Option String
  | .string s => some s
  | _ => none

def array? : Json → Option (List Json)
  | .array items => some items
  | _ => none

def object? : Json → Option Record
  | .object fields => some fields
  | _ => none

/-- the number as a double, when the value is a number -/
def number? : Json → Option Double
  | .number n => some n.toDouble
  | _ => none

/-- the field under a name, when the value is an object that has it -/
def get? : Json → String → Option Json
  | .object fields, key => Record.get? fields key
  | _, _ => none

/-- the string field under a name -/
def stringAt? (v : Json) (key : String) : Option String := (v.get? key).bind string?

/-- the number field under a name -/
def numberAt? (v : Json) (key : String) : Option Double := (v.get? key).bind number?

/-- The list under a name: a missing or null field is an empty list, anything else but an array is malformed. -/
def listAt? (v : Json) (key : String) : Option (List Json) :=
  match v.get? key with
  | none | some .null => some []
  | some (.array items) => some items
  | some _ => none

/-- the exact integer that a value denotes: an integer number, or a string in canonical integer spelling -/
def toInt? : Json → Option Int
  | .number (.int n) => some n.val
  | .string s => Decimal.canonical? s.toList
  | _ => none

/-- the double that a value denotes: a number, or a string in plain decimal spelling -/
def toDouble? : Json → Option Double
  | .number n => some n.toDouble
  | .string s => Decimal.plain? s.toList
  | _ => none

/-- the exact integer under a name -/
def intAt? (v : Json) (key : String) : Option Int := (v.get? key).bind toInt?

/-- false for null, false, zero and the empty string -/
def isTruthy : Json → Bool
  | .null => false
  | .bool b => b
  | .number n => !n.toDouble.equal (.zero false)
  | .string s => s ≠ ""
  | .array _ => true
  | .object _ => true

/-- the name of the value's type -/
def typeName : Json → String
  | .null => "null"
  | .bool _ => "boolean"
  | .number _ => "number"
  | .string _ => "string"
  | .array _ => "array"
  | .object _ => "object"

/-! ## Equality of values -/

mutual

/-- Deep equality: numbers by their doubles, so that 1 and 1.0 are the same, arrays item by item, objects as maps. -/
def same : Json → Json → Bool
  | .null, .null => true
  | .bool a, .bool b => a == b
  | .number a, .number b => a.toDouble.equal b.toDouble
  | .string a, .string b => a == b
  | .array xs, .array ys => sameItems xs ys
  | .object xs, .object ys => Record.size xs == Record.size ys && sameFields [] xs ys
  | _, _ => false

/-- lists of one length whose items agree in turn -/
def sameItems : List Json → List Json → Bool
  | [], [] => true
  | x :: xs, y :: ys => x.same y && sameItems xs ys
  | _, _ => false

/-- every field that counts, apart from the names in `hidden`, has its equal in the other record -/
def sameFields (hidden : List String) : List (String × Json) → Record → Bool
  | [], _ => true
  | (name, v) :: rest, other =>
    (name ∈ hidden || match Record.get? other name with
      | some w => v.same w
      | none => false)
    && sameFields (name :: hidden) rest other

end

end Json

end Proviso
