/-
Verdicts on votes and baskets, and the order in which the weights are listed.

Weights are added as doubles from left to right, so in another order their sum may be another double. A verdict holds the sum
against a bound: the quorum, or one within the tolerance. With two weights at most the sum is the same in either order. With
more of them the order makes no difference where the exact sum is clear of the bound (`Double.Clear`), and then the verdict is
that of the exact sum (`verdicts_reordered`). Nearer to the bound it does make one, be it the quorum (`quorum_of_tenths`) or an
end of the tolerance (`tolerance_of_thousandths`).
-/
import Proviso.Proofs.Double.Sums
import Proviso.Proofs.Json.Fields
import Proviso.Verdict.Voting

namespace Proviso

namespace Double

/-! ## Bounds on a double -/

theorem finite_le_finite_iff {x y : Finite} : (finite x).le (finite y) = true ↔ x.units ≤ y.units := by
  rw [le, compare_of_key rfl rfl, Option.any_some, bne_iff_ne, ne_eq, Int.compare_eq_gt, Int.not_lt]

theorem one_eq_mul_two_pow {k : Nat} (hk : 53 + k = 1074) : one = 2 ^ 53 * 2 ^ k := by
  rw [← Nat.pow_add, hk, one]

/-- a double that is nearer to one than a half differs from it by a double -/
theorem rounded_sub_one {x : Finite} (h : 2 * (x.units - one).natAbs ≤ one) :
    rounded (x.units - one).natAbs = (x.units - one).natAbs := by
  obtain ⟨k, hk⟩ : ∃ k, 53 + k = 1074 := ⟨1021, rfl⟩
  have hone := one_eq_mul_two_pow hk
  have hmagnitude := x.natAbs_units
  have hlow : 2 ^ 52 * 2 ^ k ≤ x.magnitude := by omega
  have hdvd : ((2 ^ k : Nat) : Int) ∣ x.units - one := by
    refine Int.dvd_sub (Int.natCast_dvd.2 ?_) (Int.natCast_dvd_natCast.2 ?_)
    · rw [hmagnitude]
      exact two_pow_dvd_magnitude hlow
    · rw [hone]
      exact Nat.dvd_mul_left _ _
  exact rounded_multiple (Int.natCast_dvd.1 hdvd) (by omega)

/-- rounding the difference from one does not carry it over a bound that is smaller than a quarter -/
theorem rounded_sub_one_le_iff (x : Finite) {t : Nat} (ht : 4 * t < one) :
    rounded (x.units - one).natAbs ≤ t ↔ (x.units - one).natAbs ≤ t := by
  by_cases hnear : 2 * (x.units - one).natAbs ≤ one
  · rw [rounded_sub_one hnear]
  · have herror := (rounded_error (x.units - one).natAbs).2
    refine iff_of_false ?_ ?_
    · omega
    · omega

theorem key_abs {x : Double} {n : Int} (h : x.key = some n) : x.abs.key = some (n.natAbs : Int) := by
  cases x with
  | finite x =>
    obtain rfl := Option.some.inj h
    rw [x.natAbs_units]
    rfl
  | infinite neg =>
    obtain rfl := Option.some.inj h
    have hinfinity := infinityUnits_eq
    cases neg
    · exact congrArg some (by omega : infinityUnits = (infinityUnits.natAbs : Int))
    · exact congrArg some (by omega : infinityUnits = ((-infinityUnits).natAbs : Int))
  | nan => cases h

/-- where a sum stands, however large it is -/
theorem exists_key_add (x y : Finite) :
    ∃ n : Int, ((finite x).add (finite y)).key = some n ∧ n.natAbs = nearestUnits (x.units + y.units).natAbs 1 := by
  rw [add]
  by_cases hzero : x.units + y.units = 0
  · rw [if_pos hzero, hzero]
    refine ⟨0, ?_, ?_⟩
    · cases x.neg && y.neg <;> rfl
    · rw [nearestUnits, Int.natAbs_zero, nearestCode_of_lt 0 (by decide), unitsOfCode_of_lt 0 (by decide), Nat.zero_min]
  · rw [if_neg hzero, key_ofUnits]
    refine ⟨_, rfl, ?_⟩
    split
    · rw [Int.natAbs_neg, Int.natAbs_natCast]
    · rw [Int.natAbs_natCast]

/-- **A double is within a tolerance of one exactly when its value is,** if the tolerance is smaller than a quarter. -/
theorem abs_sub_one_le_iff (x : Finite) {t : Finite} (hneg : t.neg = false) (ht : 4 * t.magnitude < one) :
    ((finite x).sub (.ofInt 1)).abs.le (.finite t) = true ↔ (x.units - one).natAbs ≤ t.magnitude := by
  obtain ⟨y, hy, hyneg, hymagnitude⟩ := ofInt_eq_finite (n := 1) (by decide)
  have hyunits : y.units = one := by
    rw [Finite.units, hyneg, hymagnitude, show (1 : Int).natAbs = 1 from rfl, Nat.one_mul]
    rfl
  obtain ⟨n, hkey, hn⟩ := exists_key_add x { y with neg := !y.neg }
  rw [Finite.units_negated, hyunits, ← Int.sub_eq_add_neg] at hn
  have htunits : (finite t).key = some (t.magnitude : Int) := by rw [key, Finite.units, hneg, if_neg Bool.false_ne_true]
  have hfinite := unitsOfCode_strictMono t.bounded
  rw [hy, sub, negate, le, compare_of_key (key_abs hkey) htunits, Option.any_some, bne_iff_ne, ne_eq, Int.compare_eq_gt,
    Int.not_lt, Int.ofNat_le, hn, ← rounded_sub_one_le_iff x ht, nearestUnits, ← rounded]
  rw [← Finite.magnitude] at hfinite
  omega

end Double

namespace Verdict

open Double

variable {records records' : List Json} {ws vs : List Double.Finite} {quorum : Double.Finite}

/-! ## Weights -/

/-- the records have these weights, each a JSON number -/
def Weigh (records : List Json) (ws : List Double.Finite) : Prop := weights? records = some (ws.map .finite)

instance (records : List Json) (ws : List Double.Finite) : Decidable (Weigh records ws) :=
  inferInstanceAs (Decidable (_ = _))

/-- records can be weighed when each has a number as its weight -/
theorem exists_weigh_iff : (∃ ws, Weigh records ws) ↔ ∀ r ∈ records, ∃ n, r.get? "weight" = some (.number n) := by
  induction records with
  | nil => exact iff_of_true ⟨[], rfl⟩ (fun r hr => by cases hr)
  | cons r rest ih =>
    rw [List.forall_mem_cons, ← ih]
    constructor
    · rintro ⟨ws, hws⟩
      obtain ⟨x, xs, hx, hxs, hcons⟩ := mapM_cons_eq_some.1 hws
      cases ws with
      | nil => cases hcons
      | cons w ws =>
        obtain ⟨rfl, rfl⟩ := List.cons.inj hcons
        obtain ⟨v, hv, hnumber⟩ := Option.bind_eq_some_iff.1 hx
        cases v with
        | number n => exact ⟨⟨n, hv⟩, ws, hxs⟩
        | null | bool | string | array | object => cases hnumber
    · rintro ⟨⟨n, hn⟩, ws, hws⟩
      obtain ⟨w, hw⟩ := n.exists_toDouble
      have hr : r.numberAt? "weight" = some (.finite w) := by
        rw [Json.numberAt?, hn, ← hw]
        rfl
      exact ⟨w :: ws, mapM_cons_eq_some.2 ⟨_, _, hr, hws, rfl⟩⟩

theorem Weigh.perm (h : Weigh records ws) (hperm : records.Perm records') : ∃ vs, Weigh records' vs ∧ ws.Perm vs := by
  obtain ⟨zs, hzs, hpermuted⟩ := mapM_perm_eq_some hperm h
  have hnumbers := exists_weigh_iff.1 ⟨ws, h⟩
  obtain ⟨vs, hvs⟩ := exists_weigh_iff.2 fun r hr => hnumbers r (hperm.mem_iff.2 hr)
  obtain rfl := Option.some.inj (hzs.symm.trans hvs)
  exact ⟨vs, hvs, (List.map_perm_map_iff (fun x y hxy => Double.finite.inj hxy)).1 hpermuted⟩

theorem Weigh.isEmpty_eq (h : Weigh records ws) : records.isEmpty = ws.isEmpty := by
  have hlength := (mapM_eq_some_iff_forall₂.1 h).length_eq
  rw [List.length_map] at hlength
  rw [Bool.eq_iff_iff, List.isEmpty_iff, List.isEmpty_iff, ← List.length_eq_zero_iff, ← List.length_eq_zero_iff, hlength]

/-! ## Sums held against bounds -/

/-- in any order, weights whose sum is clear of the quorum reach it exactly when the exact sum does -/
theorem quorum_le_sum_iff (h : Clear ws quorum.units) (hperm : ws.Perm vs) :
    (finite quorum).le (sum (vs.map finite)) = true ↔ quorum.units ≤ Double.total ws := by
  obtain ⟨z, hz, hlow, -⟩ := h.le_iff hperm
  rw [hz, finite_le_finite_iff, hlow]

/-- 0.001 as a double -/
def tolerance : Double.Finite := ⟨false, 0x3F50624DD2F1A9FC, by decide⟩

theorem weightTolerance_eq : weightTolerance = .finite tolerance := by decide +kernel

theorem four_mul_tolerance_lt_one : 4 * tolerance.magnitude < one := by decide +kernel

/-- the exact sum is one, within the tolerance -/
def NearOne (ws : List Double.Finite) : Prop := (Double.total ws - one).natAbs ≤ tolerance.magnitude

instance : Decidable (NearOne ws) := inferInstanceAs (Decidable (_ ≤ _))

/-- a sum is clear of the tolerance when it is clear of both ends of it -/
def ClearOfTolerance (ws : List Double.Finite) : Prop :=
  Clear ws (one - tolerance.magnitude) ∧ Clear ws (one + tolerance.magnitude)

/-- in any order, weights whose sum is clear of the tolerance add up to one exactly when the exact sum does -/
theorem normalized_iff (h : ClearOfTolerance ws) (hperm : ws.Perm vs) :
    normalized (vs.map finite) = true ↔ NearOne ws := by
  obtain ⟨z, hz, hlow, -⟩ := h.1.le_iff hperm
  obtain ⟨z', hz', -, hhigh⟩ := h.2.le_iff hperm
  obtain rfl : z = z' := Double.finite.inj (hz.symm.trans hz')
  rw [normalized, hz, weightTolerance_eq, abs_sub_one_le_iff z rfl four_mul_tolerance_lt_one, NearOne]
  omega

theorem quorum_le_sum_congr (h : ws.length ≤ 2 ∨ Clear ws quorum.units) (hperm : ws.Perm vs) :
    (finite quorum).le (sum (ws.map finite)) = (finite quorum).le (sum (vs.map finite)) := by
  rcases h with hlength | hclear
  · rw [sum_perm_of_length_le_two hlength hperm]
  · rw [Bool.eq_iff_iff, quorum_le_sum_iff hclear (.refl ws), quorum_le_sum_iff hclear hperm]

theorem normalized_congr (h : ws.length ≤ 2 ∨ ClearOfTolerance ws) (hperm : ws.Perm vs) :
    normalized (ws.map finite) = normalized (vs.map finite) := by
  rcases h with hlength | hclear
  · rw [normalized, normalized, sum_perm_of_length_le_two hlength hperm]
  · rw [Bool.eq_iff_iff, normalized_iff hclear (.refl ws), normalized_iff hclear hperm]

/-! ## Proposals and baskets -/

/-- the proposal asks for this quorum, and these votes are cast -/
inductive Proposes : Operand → Double.Finite → List Json → Prop
  | mk {fields : Record} {voting : Json} {quorum : Double.Finite} {votes : List Json}
      (hvoting : fields.get? "voting" = some voting) (hvotes : voting.get? "votes_cast" = some (.array votes))
      (hquorum : voting.numberAt? "quorum_required" = some (.finite quorum)) :
      Proposes (.json (.object fields)) quorum votes

/-- the basket has these entries -/
inductive Lists : Operand → List Json → Prop
  | mk {fields : Record} {entries : List Json} (hentries : fields.get? "entries" = some (.array entries)) :
      Lists (.json (.object fields)) entries

theorem Proposes.voteWeights?_eq {proposal : Operand} (h : Proposes proposal quorum records) (hweights : Weigh records ws) :
    voteWeights? proposal = some (ws.map .finite) := by
  cases h with
  | @mk fields _ _ _ hvoting hvotes _ =>
    have hfield : Json.get? (.object fields) "voting" = _ := hvoting
    simp only [voteWeights?, Operand.object?, hfield, hvotes, Json.array?, Option.bind_eq_bind, Option.bind_some]
    exact hweights

theorem Proposes.quorumMet_eq {proposal : Operand} (h : Proposes proposal quorum records) (hweights : Weigh records ws) :
    proposalQuorumMet proposal = .bool (!ws.isEmpty && (finite quorum).le (sum (ws.map finite))) := by
  have hvotes := h.voteWeights?_eq hweights
  cases h with
  | mk hvoting _ hquorum =>
    rw [proposalQuorumMet, hvotes]
    simp [Operand.object?, Json.get?, hvoting, hquorum]

theorem Proposes.weightsNormalized_eq {proposal : Operand} (h : Proposes proposal quorum records)
    (hweights : Weigh records ws) :
    proposalWeightsNormalized proposal = .bool (ws.isEmpty || normalized (ws.map finite)) := by
  rw [proposalWeightsNormalized, h.voteWeights?_eq hweights]
  simp

theorem Lists.weightsNormalized_eq {basket : Operand} (h : Lists basket records) (hweights : Weigh records ws) :
    basketWeightsNormalized basket = .bool (!ws.isEmpty && normalized (ws.map finite)) := by
  cases h with
  | @mk fields _ hentries =>
    have hfield : Json.get? (.object fields) "entries" = _ := hentries
    have hempty := hweights.isEmpty_eq
    simp only [basketWeightsNormalized, Operand.object?, hfield, Json.array?, Option.bind_some, ← hempty]
    cases records with
    | nil => rfl
    | cons r rest =>
      rw [Weigh] at hweights
      simp only [hweights, Option.any_some]
      rfl

/-- **The order of votes and entries makes no difference while the sum of the weights is clear of the bound.** With at most
two weights, or a sum that is clear of the quorum, a proposal meets the quorum in every order of its votes or in none; with a
sum that is clear of the tolerance, the weights of a proposal or a basket add up to one in every order or in none. Where the
sum is clear of the bound the verdict is that of the exact sum. -/
theorem verdicts_reordered (hweights : Weigh records ws) (hperm : records.Perm records') :
    (∀ proposal proposal' quorum, Proposes proposal quorum records → Proposes proposal' quorum records' →
      (ws.length ≤ 2 ∨ Clear ws quorum.units → proposalQuorumMet proposal = proposalQuorumMet proposal') ∧
      (Clear ws quorum.units → proposalQuorumMet proposal = .bool (ws ≠ [] ∧ quorum.units ≤ Double.total ws)) ∧
      (ws.length ≤ 2 ∨ ClearOfTolerance ws →
        proposalWeightsNormalized proposal = proposalWeightsNormalized proposal') ∧
      (ClearOfTolerance ws → proposalWeightsNormalized proposal = .bool (ws = [] ∨ NearOne ws))) ∧
    (∀ basket basket', Lists basket records → Lists basket' records' →
      (ws.length ≤ 2 ∨ ClearOfTolerance ws → basketWeightsNormalized basket = basketWeightsNormalized basket') ∧
      (ClearOfTolerance ws → basketWeightsNormalized basket = .bool (ws ≠ [] ∧ NearOne ws))) := by
  obtain ⟨vs, hweights', hpermuted⟩ := hweights.perm hperm
  have hempty := hpermuted.isEmpty_eq
  constructor
  · intro proposal proposal' quorum hproposal hproposal'
    rw [hproposal.quorumMet_eq hweights, hproposal'.quorumMet_eq hweights', hproposal.weightsNormalized_eq hweights,
      hproposal'.weightsNormalized_eq hweights', ← hempty]
    refine ⟨fun h => ?_, fun h => ?_, fun h => ?_, fun h => ?_⟩
    · rw [quorum_le_sum_congr h hpermuted]
    · rw [Operand.bool_inj, Bool.eq_iff_iff]
      simp [quorum_le_sum_iff h (.refl ws)]
    · rw [normalized_congr h hpermuted]
    · rw [Operand.bool_inj, Bool.eq_iff_iff]
      simp [normalized_iff h (.refl ws)]
  · intro basket basket' hbasket hbasket'
    rw [hbasket.weightsNormalized_eq hweights, hbasket'.weightsNormalized_eq hweights', ← hempty]
    refine ⟨fun h => ?_, fun h => ?_⟩
    · rw [normalized_congr h hpermuted]
    · rw [Operand.bool_inj, Bool.eq_iff_iff]
      simp [normalized_iff h (.refl ws)]

/-- a vote or an entry of this weight -/
def weighing (digits places : Nat) : Json := .object [("weight", .decimal digits places)]

/-- the proposal that asks for this quorum, with these votes -/
def proposing (quorum : Json) (votes : List Json) : Operand :=
  .json (.object [("voting", .object [("quorum_required", quorum), ("votes_cast", .array votes)])])

theorem proposes_proposing {v : Json} (h : v.number? = some (.finite quorum)) (votes : List Json) :
    Proposes (proposing v votes) quorum votes := .mk rfl rfl h

/-- the double 1 -/
def full : Double.Finite := ⟨false, 0x3FF0000000000000, by decide⟩

/-- the doubles nearest to 0.1, 0.2 and 0.7 -/
def tenths : List Double.Finite :=
  [⟨false, 0x3FB999999999999A, by decide⟩, ⟨false, 0x3FC999999999999A, by decide⟩,
    ⟨false, 0x3FE6666666666666, by decide⟩]

/-- 0.25, 0.5 and 0.25 -/
def quarters : List Double.Finite :=
  [⟨false, 0x3FD0000000000000, by decide⟩, ⟨false, 0x3FE0000000000000, by decide⟩,
    ⟨false, 0x3FD0000000000000, by decide⟩]

/-- 0.25, 0.5 and 0.25, which are multiples of a quarter, reach the quorum 1 in any order though they add up to just that,
and 0.1, 0.2 and 0.7 are normalized in any order, as the tolerance is larger than the rounding -/
theorem verdicts_of_quarters_and_tenths :
    let votes := [weighing 25 2, weighing 5 1, weighing 25 2]
    let votes' := [weighing 5 1, weighing 25 2, weighing 25 2]
    let entries := [weighing 1 1, weighing 2 1, weighing 7 1]
    let entries' := [weighing 7 1, weighing 2 1, weighing 1 1]
    let basket (entries : List Json) : Operand := .json (.object [("entries", .array entries)])
    (proposalQuorumMet (proposing (.decimal 10 1) votes) = .bool true ∧
      proposalQuorumMet (proposing (.decimal 10 1) votes') = .bool true) ∧
    basketWeightsNormalized (basket entries) = .bool true ∧ basketWeightsNormalized (basket entries') = .bool true := by
  intro votes votes' entries entries' basket
  have hfull : (Json.decimal 10 1).number? = some (.finite full) := by decide +kernel
  have hvotes : Weigh votes quarters := by decide +kernel
  have hgrid : Clear quarters full.units := .exact ⟨1072, by decide +kernel, by decide +kernel, by decide +kernel⟩
  have htenths : Weigh entries tenths := by decide +kernel
  have hclear : ClearOfTolerance tenths := by
    have hrange : bulk tenths + drift tenths < overflowUnits := by decide +kernel
    exact ⟨.apart hrange (by decide +kernel), .apart hrange (by decide +kernel)⟩
  obtain ⟨hsame, hexact, -⟩ := (verdicts_reordered hvotes (.swap _ _ _)).1 _ _ full (proposes_proposing hfull votes)
    (proposes_proposing hfull votes')
  obtain ⟨hsame', hexact'⟩ := (verdicts_reordered htenths (List.reverse_perm entries).symm).2 (basket entries)
    (basket entries') (.mk rfl) (.mk rfl)
  have hmet : proposalQuorumMet (proposing (.decimal 10 1) votes) = .bool true := by
    rw [hexact hgrid, Operand.bool_inj]
    decide +kernel
  have hnormalized : basketWeightsNormalized (basket entries) = .bool true := by
    rw [hexact' hclear, Operand.bool_inj]
    decide +kernel
  exact ⟨⟨hmet, (hsame (.inr hgrid)).symm.trans hmet⟩, hnormalized, (hsame' (.inr hclear)).symm.trans hnormalized⟩

/-- **Three tenths that add up to one in one order miss it in the other.** -/
theorem quorum_of_tenths :
    let votes := [weighing 1 1, weighing 2 1, weighing 7 1]
    let votes' := [weighing 7 1, weighing 2 1, weighing 1 1]
    votes.Perm votes' ∧ Weigh votes tenths ∧
      (Proposes (proposing (.decimal 10 1) votes) full votes ∧ Proposes (proposing (.decimal 10 1) votes') full votes') ∧
      proposalQuorumMet (proposing (.decimal 10 1) votes) = .bool true ∧
      proposalQuorumMet (proposing (.decimal 10 1) votes') = .bool false := by
  intro votes votes'
  have hfull : (Json.decimal 10 1).number? = some (.finite full) := by decide +kernel
  have hproposes := proposes_proposing hfull votes
  have hproposes' := proposes_proposing hfull votes'
  have hweights : Weigh votes tenths := by decide +kernel
  have hweights' : Weigh votes' tenths.reverse := by decide +kernel
  refine ⟨(List.reverse_perm votes).symm, hweights, ⟨hproposes, hproposes'⟩, ?_, ?_⟩
  · rw [hproposes.quorumMet_eq hweights, Operand.bool_inj]
    decide +kernel
  · rw [hproposes'.quorumMet_eq hweights', Operand.bool_inj]
    decide +kernel

/-- the doubles nearest to 0.461, 0.056 and 0.484 -/
def thousandths : List Double.Finite :=
  [⟨false, 0x3FDD810624DD2F1B, by decide⟩, ⟨false, 0x3FACAC083126E979, by decide⟩,
    ⟨false, 0x3FDEF9DB22D0E560, by decide⟩]

/-- **Three weights that are within the tolerance in one order are past it in another,** in a proposal and in a basket. -/
theorem tolerance_of_thousandths :
    let records := [weighing 461 3, weighing 56 3, weighing 484 3]
    let records' := [weighing 461 3, weighing 484 3, weighing 56 3]
    let basket (entries : List Json) : Operand := .json (.object [("entries", .array entries)])
    records.Perm records' ∧ Weigh records thousandths ∧
      (proposalWeightsNormalized (proposing (.decimal 10 1) records) = .bool true ∧
        proposalWeightsNormalized (proposing (.decimal 10 1) records') = .bool false) ∧
      basketWeightsNormalized (basket records) = .bool true ∧
      basketWeightsNormalized (basket records') = .bool false := by
  intro records records' basket
  have hfull : (Json.decimal 10 1).number? = some (.finite full) := by decide +kernel
  have hweights : Weigh records thousandths := by decide +kernel
  have hweights' : Weigh records' [thousandths[0], thousandths[2], thousandths[1]] := by decide +kernel
  have hwithin : normalized (thousandths.map finite) = true := by decide +kernel
  have hpast : normalized ([thousandths[0], thousandths[2], thousandths[1]].map finite) = false := by decide +kernel
  refine ⟨.cons _ (.swap _ _ _), hweights, ⟨?_, ?_⟩, ?_, ?_⟩
  · rw [(proposes_proposing hfull records).weightsNormalized_eq hweights, hwithin, Bool.or_true]
  · rw [(proposes_proposing hfull records').weightsNormalized_eq hweights', hpast]
    rfl
  · rw [Lists.weightsNormalized_eq (.mk rfl) hweights, hwithin]
    rfl
  · rw [Lists.weightsNormalized_eq (.mk rfl) hweights', hpast, Bool.and_false]

end Verdict

end Proviso
