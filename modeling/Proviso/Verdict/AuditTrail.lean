/-
Verdicts on audit trails: entries of which each names the hash of the one before. The hashes are compared, not computed.
-/
import Proviso.Operand

namespace Proviso.Verdict

/-- what the first entry names as the hash before it -/
def genesisHash : String := "sha256:e3b0c44298fc1c149afbf4c8996fb92427ae41e4649b934ca495991b7852b855"

/-- whether each entry names the hash before it, the first of them `before` -/
def chainLinked (before : String) : List Json → Bool
  | [] => true
  | entry :: rest =>
    match entry.stringAt? "previous_hash", entry.stringAt? "entry_hash" with
    | some named, some own => named == before && chainLinked own rest
    | _, _ => false

/-- the entries of a trail: an array, or the entries of an object that names the genesis hash -/
def trailEntries? (trail : Operand) : Option (List Json) :=
  match trail with
  | .json (.array entries) => some entries
  | .json (.object fields) =>
    if Json.stringAt? (.object fields) "genesis_hash" = some genesisHash then
      (Json.get? (.object fields) "entries").bind Json.array?
    else none
  | _ => none

def auditTrailChainValid (trail : Operand) : Operand := .bool ((trailEntries? trail).any (chainLinked genesisHash))

end Proviso.Verdict
