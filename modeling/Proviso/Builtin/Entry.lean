/-
What the catalogue says of a builtin: how it is called, what it tells, and worked examples. Every example is a record, a
constraint, and whether the record meets it.
-/
import Proviso.Builtin
import Proviso.Json

namespace Proviso

/-- a worked example -/
structure Example where
  description : String
  context : Json
  expression : String
  expected : Bool

/-- the entry of one builtin -/
structure Entry where
  builtin : Builtin
  signature : String
  description : String
  examples : List Example

end Proviso
