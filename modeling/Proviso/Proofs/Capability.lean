/-
Which emergent capabilities are looked for among those of the individuals.

Of the elements of the emergent source the check takes those that are JSON values, and compares them with all that stands in
an array of the individuals (`noEmergentInIndividual_iff`). An exact integer or a list in brackets is none and is passed
over, although it may well equal something that an individual has. So the verdict can be relied on when nothing is held
that was passed over, and always for an array of the record, whose elements are values (`emergence_denied_iff`).
-/
import Proviso.Eval
import Proviso.Proofs.Operand.Equality

namespace Proviso

theorem Operand.json?_eq_some {o : Operand} {v : Json} : o.json? = some v ↔ o = .json v := by
  cases o <;> simp [json?]

namespace Verdict

variable {individual : Record} {emergent : Operand} {items : List Operand} {v w : Json} {o : Operand}

/-- the value stands in an array among the values of the record -/
def Held (individual : Record) (w : Json) : Prop := ∃ key members, individual.get? key = some (.array members) ∧ w ∈ members

/-- the operand equals something that is held, as `==` finds it without settings -/
def FoundIn (individual : Record) (o : Operand) : Prop := ∃ w, Held individual w ∧ o.equals false (.json w) = true

theorem mem_held : w ∈ ((Record.values individual).filterMap Json.array?).flatten ↔ Held individual w := by
  simp only [List.mem_flatten, List.mem_filterMap, Record.mem_values, Held]
  constructor
  · rintro ⟨members, ⟨v, ⟨key, hkey⟩, hmembers⟩, hw⟩
    cases v with
    | array others =>
      obtain rfl := Option.some.inj hmembers
      exact ⟨key, others, hkey, hw⟩
    | null | bool | number | string | object => cases hmembers
  · rintro ⟨key, members, hkey, hw⟩
    exact ⟨members, ⟨.array members, ⟨key, hkey⟩, rfl⟩, hw⟩

theorem foundIn_json : FoundIn individual (.json v) ↔ ∃ w, Held individual w ∧ w.same v = true := by
  simp only [FoundIn, Operand.equals_json_json, Json.same_comm v]

/-- **Only values are looked for.** The verdict is true exactly when none of the JSON values among the emergent capabilities
is found. -/
theorem noEmergentInIndividual_iff (hitems : emergent.elements? = some items) :
    noEmergentInIndividual emergent (.json (.object individual)) = .bool true ↔
      ∀ v, .json v ∈ items → ¬ FoundIn individual (.json v) := by
  have hverdict : noEmergentInIndividual emergent (.json (.object individual)) = .bool (!(items.filterMap Operand.json?).any
      fun v => ((Record.values individual).filterMap Json.array?).flatten.any (·.same v)) := by
    simp only [noEmergentInIndividual, hitems]
    rfl
  have hvalues : ∀ v, v ∈ items.filterMap Operand.json? ↔ .json v ∈ items := by
    simp [List.mem_filterMap, Operand.json?_eq_some]
  rw [hverdict, Operand.bool_inj, Bool.not_eq_true', List.any_eq_false]
  simp only [hvalues, foundIn_json, List.any_eq_true, mem_held]

/-- an element that is found among what the individuals have, but is no JSON value -/
structure Overlooked (individual : Record) (items : List Operand) (o : Operand) : Prop where
  mem : o ∈ items
  no_value : o.json? = none
  found : FoundIn individual o

/-- what is absent equals no value, so it is not found -/
theorem Overlooked.int_or_list (h : Overlooked individual items o) : (∃ n, o = .int n) ∨ ∃ members, o = .list members := by
  cases o with
  | absent =>
    obtain ⟨w, -, hequals⟩ := h.found
    simp [Operand.equals] at hequals
  | json v => cases h.no_value
  | int n => exact .inl ⟨n, rfl⟩
  | list members => exact .inr ⟨members, rfl⟩

/-- the elements of an array are values, so none of them is overlooked -/
theorem not_overlooked_of_array {vs : List Json} : ¬ Overlooked individual (vs.map .json) o := by
  intro h
  obtain ⟨v, -, rfl⟩ := List.mem_map.1 h.mem
  cases h.no_value

/-- the verdict is right when an element is found that is looked for, or none is found that is not -/
theorem noEmergentInIndividual_right_iff (hitems : emergent.elements? = some items) :
    (noEmergentInIndividual emergent (.json (.object individual)) = .bool true ↔ ∀ o ∈ items, ¬ FoundIn individual o) ↔
      (∃ v, .json v ∈ items ∧ FoundIn individual (.json v)) ∨ ∀ o, ¬ Overlooked individual items o := by
  rw [noEmergentInIndividual_iff hitems]
  constructor
  · intro hright
    by_cases hfound : ∃ v, .json v ∈ items ∧ FoundIn individual (.json v)
    · exact .inl hfound
    · exact .inr fun o ho => hright.1 (fun v hv h => hfound ⟨v, hv, h⟩) o ho.mem ho.found
  · intro hcase
    refine ⟨fun hnone o ho hfound => ?_, fun hnone v hv => hnone (.json v) hv⟩
    rcases hcase with ⟨v, hv, h⟩ | hoverlooked
    · exact hnone v hv h
    · -- what is found and not overlooked is a value
      cases hvalue : o.json? with
      | none => exact hoverlooked o ⟨ho, hvalue, hfound⟩
      | some v =>
        obtain rfl := Operand.json?_eq_some.1 hvalue
        exact hnone v ho hfound

/-- **The verdict on emergent capabilities is right exactly when nothing decisive is overlooked.** It is true when none of the
elements that are JSON values is found in an array of the individuals. That says that no element is found at all, exactly
when a value is found all the same or no other element is; and the others that may be found are exact integers and lists in
brackets. Of an array of the record all elements are values, and the verdict is right. -/
theorem emergence_denied_iff (hitems : emergent.elements? = some items) :
    (noEmergentInIndividual emergent (.json (.object individual)) = .bool true ↔
      ∀ v, .json v ∈ items → ¬ FoundIn individual (.json v)) ∧
    ((noEmergentInIndividual emergent (.json (.object individual)) = .bool true ↔ ∀ o ∈ items, ¬ FoundIn individual o) ↔
      (∃ v, .json v ∈ items ∧ FoundIn individual (.json v)) ∨ ∀ o, ¬ Overlooked individual items o) ∧
    (∀ o, Overlooked individual items o → (∃ n, o = .int n) ∨ ∃ members, o = .list members) ∧
    (∀ vs, emergent = .json (.array vs) →
      (noEmergentInIndividual emergent (.json (.object individual)) = .bool true ↔
        ∀ o ∈ items, ¬ FoundIn individual o)) := by
  refine ⟨noEmergentInIndividual_iff hitems, noEmergentInIndividual_right_iff hitems, fun o h => h.int_or_list, ?_⟩
  rintro vs rfl
  obtain rfl := Option.some.inj hitems
  exact (noEmergentInIndividual_right_iff rfl).2 (.inr fun o => not_overlooked_of_array)

/-- an integer and a text that nobody has, beside something that is absent -/
theorem consensus_not_held :
    let one : Json := .number (.int ⟨1, by decide, by decide⟩)
    let individual : Record := [("m1", .array [.string "reasoning", one]), ("m2", .string "consensus")]
    let emergent : Operand := .list [.json (.string "consensus"), .int 2, .absent]
    emergent.elements? = some [.json (.string "consensus"), .int 2, .absent] ∧
      noEmergentInIndividual emergent (.json (.object individual)) = .bool true ∧
      ∀ o ∈ [.json (.string "consensus"), .int 2, .absent], ¬ FoundIn individual o := by
  intro one individual emergent
  have hverdict : noEmergentInIndividual emergent (.json (.object individual)) = .bool true := rfl
  have hheld : ∀ w, Held individual w → w = .string "reasoning" ∨ w = one := by
    intro w hw
    have hmem := mem_held.2 hw
    simpa [individual, Record.values, Record.entries, Record.visible, Json.array?] using hmem
  have hoverlooked : ∀ o, ¬ Overlooked individual [.json (.string "consensus"), .int 2, .absent] o := by
    rintro o ⟨hmem, hno, w, hw, hequals⟩
    simp only [List.mem_cons, List.not_mem_nil, or_false] at hmem
    rcases hmem with rfl | rfl | rfl
    · cases hno
    · rcases hheld w hw with rfl | rfl <;> exact absurd hequals (by decide +kernel)
    · rcases hheld w hw with rfl | rfl <;> exact absurd hequals (by decide +kernel)
  have hitems : emergent.elements? = some [.json (.string "consensus"), .int 2, .absent] := rfl
  have hright := (emergence_denied_iff hitems).2.1.2 (.inr hoverlooked)
  exact ⟨hitems, hverdict, hright.1 hverdict⟩

/-- **An exact integer that an individual has goes unseen.** The number is equal to the literal, but the literal is no JSON
value. -/
theorem held_integer_overlooked :
    let one : Json := .number (.int ⟨1, by decide, by decide⟩)
    let env : Env := {
      context := .object [("individual", .object [("m1", .array [one])])], options := {}, clock := ⟨0, 0, 0⟩ }
    let individual : Path := ⟨"individual", []⟩
    let held : Path := ⟨"individual", [.key "m1", .index 0]⟩
    (Expr.binary .eq (.literal (.int 1)) (.field held)).eval env = .bool true ∧
      (Expr.call .noEmergentInIndividual [.array [.literal (.int 1)], .field individual]).eval env = .bool true :=
  ⟨rfl, rfl⟩

end Verdict

end Proviso
