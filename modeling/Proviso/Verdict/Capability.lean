/-
Verdicts on emergent capabilities, those that a group claims to have and none of its members.
-/
import Proviso.Operand

namespace Proviso.Verdict

/-- Whether no emergent capability is found in an array of the individual ones. Only JSON values among the emergent ones
are looked for. Without individuals there is nothing to find. -/
def noEmergentInIndividual (emergent individual : Operand) : Operand :=
  if individual.isNullish then .bool true
  else
    match individual, emergent.elements? with
    | .json (.object fields), some items =>
      let held := ((Record.values fields).filterMap Json.array?).flatten
      .bool (!(items.filterMap Operand.json?).any fun capability => held.any (·.same capability))
    | _, _ => .no

/-- whether every emergent capability has a piece of evidence that names it -/
def allEmergentHaveEvidence (emergent evidence : Operand) : Operand :=
  match emergent.elements?, evidence.array? with
  | some items, some pieces =>
    let named := pieces.filterMap (·.get? "capability")
    .bool (items.all fun item => item.json?.any fun capability => named.any (·.same capability))
  | _, _ => .no

end Proviso.Verdict
