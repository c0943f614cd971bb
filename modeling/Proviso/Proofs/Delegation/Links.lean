/-
What neighbours of a chain of links have in common, all of its links have.

A verdict on links compares each link with the next alone. Each time something is read off the two, a scope, an instant
or a budget, and each time what the two are to each other carries over: to lie in a scope, to be no earlier, to be no
larger. So with two links or more the check passes exactly when something can be read off every link and any two of them
are to each other as neighbours have to be, however far apart they are (`adjacent_iff_allPairs`). For the three verdicts
this is `neighbours_speak_for_all`.
-/
import Mathlib.Data.List.Chain
import Mathlib.Data.List.Forall2
import Proviso.Proofs.Delegation.Authority
import Proviso.Proofs.Delegation.Budget
import Proviso.Proofs.Instant.Order

namespace Proviso

namespace Verdict

/-! ## Any two links -/

/-- Each link gives one of the `values`, in turn, and any two of them are related, the one that is said first coming
first. -/
def AllPairs {α : Type} (gives : Json → α → Prop) (related : α → α → Prop) (links : List Json) : Prop :=
  ∃ values, List.Forall₂ gives links values ∧ values.Pairwise related

section

variable {α : Type} {gives : Json → α → Prop} {related : α → α → Prop} {check : Json → Json → Bool}
  {a b : Json} {links rest : List Json}

theorem adjacent_pair : adjacent check [a, b] = check a b := Bool.and_true _

/-- the check of neighbours, for two links and those that follow them -/
theorem adjacent_iff_values (hunique : ∀ link x y, gives link x → gives link y → x = y)
    (hcheck : ∀ p ∈ a :: b :: rest, ∀ q ∈ a :: b :: rest,
      check p q = true ↔ ∃ x y, gives p x ∧ gives q y ∧ related x y) :
    adjacent check (a :: b :: rest) = true ↔
      ∃ values, List.Forall₂ gives (a :: b :: rest) values ∧ values.IsChain related := by
  have hfirst := hcheck a (by simp) b (by simp)
  induction rest generalizing a b with
  | nil =>
    rw [adjacent_pair, hfirst]
    constructor
    · rintro ⟨x, y, hx, hy, hxy⟩
      exact ⟨[x, y], .cons hx (.cons hy .nil), .cons_cons hxy (.singleton y)⟩
    · rintro ⟨_, _ | ⟨hx, _ | ⟨hy, _⟩⟩, hchain⟩
      exact ⟨_, _, hx, hy, hchain.rel⟩
  | cons c rest ih =>
    have hrest : adjacent check (b :: c :: rest) = true ↔
        ∃ values, List.Forall₂ gives (b :: c :: rest) values ∧ values.IsChain related :=
      ih (fun p hp q hq => hcheck p (List.mem_cons_of_mem a hp) q (List.mem_cons_of_mem a hq))
        (hcheck b (by simp) c (by simp))
    rw [adjacent, Bool.and_eq_true, hfirst, hrest]
    constructor
    · rintro ⟨⟨x, y, hx, hy, hxy⟩, _, hvalues, hchain⟩
      -- the second link gives one value only, to the first link and to the third
      cases hvalues with
      | cons hy' hothers =>
        obtain rfl := hunique b _ _ hy hy'
        exact ⟨_, .cons hx (.cons hy hothers), .cons_cons hxy hchain⟩
    · rintro ⟨_, _ | ⟨hx, _ | ⟨hy, hothers⟩⟩, hchain⟩
      exact ⟨⟨_, _, hx, hy, hchain.rel⟩, _, .cons hy hothers, hchain.tail⟩

/-- **A check of neighbours is a check of all pairs,** when what it asks of two neighbours carries over. Up to one link
there is nothing to check. -/
theorem adjacent_iff_allPairs (hunique : ∀ link x y, gives link x → gives link y → x = y)
    (htrans : ∀ x y z, related x y → related y z → related x z)
    (hcheck : ∀ p ∈ links, ∀ q ∈ links, check p q = true ↔ ∃ x y, gives p x ∧ gives q y ∧ related x y) :
    adjacent check links = true ↔ links.length ≤ 1 ∨ AllPairs gives related links := by
  have : Trans related related related := ⟨htrans _ _ _⟩
  match links with
  | [] => simp [adjacent]
  | [a] => simp [adjacent]
  | a :: b :: rest =>
    have hmany : ¬ (a :: b :: rest).length ≤ 1 := by simp
    rw [adjacent_iff_values hunique hcheck, AllPairs]
    simp only [hmany, false_or, List.isChain_iff_pairwise]

end

/-- a transitive relation between neighbours holds between any two -/
theorem adjacent_iff_pairwise {α : Type} {r : α → α → Bool} {xs : List α}
    (htrans : ∀ x y z, r x y = true → r y z = true → r x z = true) :
    adjacent r xs = true ↔ xs.Pairwise fun x y => r x y = true := by
  have : Trans (fun x y => r x y = true) (fun x y => r x y = true) (fun x y => r x y = true) := ⟨htrans _ _ _⟩
  rw [← List.isChain_iff_pairwise]
  induction xs with
  | nil => simp [adjacent]
  | cons x xs ih =>
    cases xs with
    | nil => simp [adjacent]
    | cons y xs =>
      rw [adjacent, Bool.and_eq_true, List.isChain_cons_cons]
      exact and_congr_right' ih

/-! ## The three checks -/

variable {parent child : Json} {links : List Json}

theorem scopeNarrows_iff : scopeNarrows parent child = true ↔
    ∃ outer inner : List String, parent.HasScope outer ∧ child.HasScope inner ∧ inner ⊆ outer := by
  have hread : ∀ (v : Json) (scope : List String), scope? id v = some scope ↔ v.HasScope scope := by
    intro v scope
    simp [scope?_eq_some]
  rw [scopeNarrows]
  constructor
  · intro h
    split at h
    · next outer inner houter hinner => exact ⟨outer, inner, (hread _ _).1 houter, (hread _ _).1 hinner, covers_iff.1 h⟩
    · cases h
  · rintro ⟨outer, inner, houter, hinner, hsub⟩
    simp only [(hread _ _).2 houter, (hread _ _).2 hinner]
    exact covers_iff.2 hsub

/-- the link has a budget, of whatever kind, that is not null -/
def Budgeted (link : Json) : Prop := ∃ v, link.get? "budget_allocated_micro" = some v ∧ v ≠ .null

theorem exists_budget?_of_budgeted (h : Budgeted parent) :
    ∃ v, budget? parent = some v ∧ ∀ n, v.toInt? = some n ↔ parent.HasBudget n := by
  obtain ⟨v, hv, hnull⟩ := h
  refine ⟨v, ?_, fun n => ?_⟩
  · rw [budget?, hv]
    cases v with
    | null => exact absurd rfl hnull
    | bool | number | string | array | object => rfl
  · rw [Json.HasBudget, ← Json.intAt?_eq_some, Json.intAt?, hv, Option.bind_some]

/-- between links that have budgets, whatever is no integer is refused -/
theorem budgetShrinks_iff (hparent : Budgeted parent) (hchild : Budgeted child) : budgetShrinks parent child = true ↔
    ∃ own less, parent.HasBudget own ∧ child.HasBudget less ∧ less ≤ own := by
  obtain ⟨v, hv, hown⟩ := exists_budget?_of_budgeted hparent
  obtain ⟨w, hw, hless⟩ := exists_budget?_of_budgeted hchild
  simp only [budgetShrinks, hv, hw, ← hown, ← hless]
  constructor
  · intro h
    split at h
    · next own less hown hless => exact ⟨own, less, hown, hless, decide_eq_true_iff.1 h⟩
    · cases h
  · rintro ⟨own, less, hown, hless, hle⟩
    simp only [hown, hless]
    exact decide_eq_true hle

/-- the timestamp of the link is this instant -/
def Stamped (link : Json) (t : Instant) : Prop := instantAt? link "timestamp" = some t

theorem mapM_instantAt?_eq_some {times : List Instant} :
    links.mapM (instantAt? · "timestamp") = some times ↔ List.Forall₂ Stamped links times := mapM_eq_some_iff_forall₂

theorem onLinks_array (judge : List Json → Bool) (links : List Json) :
    onLinks judge (.json (.array links)) = .bool (judge links) := rfl

/-- **What is checked of neighbours in a chain of links holds of any two links.** The scopes of a chain narrow exactly
when every link has a scope, which is empty when missing or null, and each scope lies in those of all earlier links. Its
timestamps are ordered exactly when all links have one and none is before that of an earlier link. And where every link
has a budget, these shrink exactly when all are integers and none is larger than that of an earlier link. Scopes and
budgets of a single link are not looked at. -/
theorem neighbours_speak_for_all (links : List Json) :
    (allLinksSubsetAuthority (.json (.array links)) = .bool true ↔
      links.length ≤ 1 ∨ AllPairs Json.HasScope (fun outer inner => inner ⊆ outer) links) ∧
    (linksTemporallyOrdered (.json (.array links)) = .bool true ↔
      AllPairs Stamped (fun earlier later => earlier.le later = true) links) ∧
    ((∀ link ∈ links, Budgeted link) →
      (delegationBudgetConserved (.json (.array links)) = .bool true ↔
        links.length ≤ 1 ∨ AllPairs Json.HasBudget (fun own less => less ≤ own) links)) := by
  simp only [allLinksSubsetAuthority, linksTemporallyOrdered, delegationBudgetConserved, onLinks_array, Operand.bool_inj]
  refine ⟨?_, ?_, fun hbudgeted => ?_⟩
  · exact adjacent_iff_allPairs (fun _ _ _ => Json.HasScope.unique) (fun _ _ _ hxy hyz => List.Subset.trans hyz hxy)
      fun p _ q _ => scopeNarrows_iff
  · rw [Option.any_eq_true, AllPairs]
    simp only [mapM_instantAt?_eq_some]
    have htrans (x y z : Instant) : x.le y = true → y.le z = true → x.le z = true := Instant.le_trans
    simp only [adjacent_iff_pairwise htrans]
  · exact adjacent_iff_allPairs (fun _ _ _ => Json.HasInt.unique) (fun _ _ _ hxy hyz => Int.le_trans hyz hxy)
      fun p hp q hq => budgetShrinks_iff (hbudgeted p hp) (hbudgeted q hq)

/-- two links of one instant, written with different offsets, and one of the next day that owes and may do nothing -/
theorem three_links_in_order :
    let first : Json := .object [("authority_scope", .array [.string "read", .string "write", .string "audit"]),
      ("timestamp", .string "2026-01-01T00:00:00Z"), ("budget_allocated_micro", .string "1000")]
    let second : Json := .object [("authority_scope", .array [.string "write", .string "read"]),
      ("timestamp", .string "2026-01-01T02:00:00+02:00"),
      ("budget_allocated_micro", .number (.int ⟨1000, by decide, by decide⟩))]
    let third : Json := .object [("timestamp", .string "2026-01-02"), ("budget_allocated_micro", .string "-5")]
    let links : Operand := .json (.array [first, second, third])
    (∀ link ∈ [first, second, third], Budgeted link) ∧ allLinksSubsetAuthority links = .bool true ∧
      linksTemporallyOrdered links = .bool true ∧ delegationBudgetConserved links = .bool true := by
  intro first second third links
  have hbudgeted : ∀ link ∈ [first, second, third], Budgeted link := by
    intro link hlink
    simp only [List.mem_cons, List.not_mem_nil, or_false] at hlink
    rcases hlink with rfl | rfl | rfl <;> exact ⟨_, rfl, nofun⟩
  have hscopes : AllPairs Json.HasScope (fun outer inner => inner ⊆ outer) [first, second, third] :=
    ⟨[["read", "write", "audit"], ["write", "read"], []],
      .cons (.array rfl) (.cons (.array rfl) (.cons (.missing rfl) .nil)), by decide⟩
  have hstamps : AllPairs Stamped (fun earlier later => earlier.le later = true) [first, second, third] := by
    refine ⟨[⟨739922, 0, 0⟩, ⟨739922, 0, 0⟩, ⟨739923, 0, 0⟩], .cons ?_ (.cons ?_ (.cons ?_ .nil)), by decide⟩
    · rw [Stamped]
      decide +kernel
    · rw [Stamped]
      decide +kernel
    · rw [Stamped]
      decide +kernel
  have hbudgets : AllPairs Json.HasBudget (fun own less => less ≤ own) [first, second, third] :=
    ⟨[1000, 1000, -5], .cons (Json.intAt?_eq_some.1 rfl) (.cons (Json.intAt?_eq_some.1 rfl)
      (.cons (Json.intAt?_eq_some.1 rfl) .nil)), by decide⟩
  obtain ⟨hscope, htime, hbudget⟩ := neighbours_speak_for_all [first, second, third]
  exact ⟨hbudgeted, hscope.2 (.inr hscopes), htime.2 hstamps, (hbudget hbudgeted).2 (.inr hbudgets)⟩

end Verdict

end Proviso
