/-
Verdicts on the shape of values: keys, sizes, types, distinct fields.
-/
import Proviso.Operand
import Proviso.Path

namespace Proviso.Verdict

/-- Whether every key of the record is among the allowed texts. A missing record has no keys. -/
def objectKeysSubset (record allowed : Operand) : Operand :=
  if record.isNullish then .bool true
  else
    match record, allowed.elements? with
    | .json (.object fields), some items =>
      let texts := items.filterMap Operand.string?
      .bool ((Record.keys fields).all fun k => texts.contains k)
    | _, _ => .no

/-- the number of items, fields or characters -/
def len (o : Operand) : Operand :=
  match o with
  | .json (.object fields) => .count (Record.size fields)
  | o => .count o.length

/-- whether no two values in a list are the same -/
def distinct : List Json → Bool
  | [] => true
  | v :: rest => rest.all (fun w => !v.same w) && distinct rest

/-- Whether the field of that dotted name differs between any two records; records without it are passed over. -/
def uniqueValues (records field : Operand) : Operand :=
  match records.array?, field.string? with
  | some items, some name => .bool (distinct (items.filterMap (·.lookupDotted name)))
  | _, _ => .no

end Proviso.Verdict
