/-
Audit trails show tampering.

In a linked chain each entry names the hash before it. When the hashes of its entries are all different, and different
from the one that the chain starts at, that name fixes the place of the entry: only the first entry names the start, and
only its successor names it. So of all ways to put entries of an accepted trail in a row, the beginnings of the trail are
the only ones that are accepted (`accepted_iff_prefix`). An entry that is cut out before the end, moved, doubled or played
back never goes unseen.
-/
import Proviso.Verdict.AuditTrail

namespace Proviso.Verdict

variable {before own : String} {entry : Json} {xs ys : List Json}

/-! ## Linked chains -/

theorem chainLinked_cons : chainLinked before (entry :: xs) = true ↔
    entry.stringAt? "previous_hash" = some before ∧
      ∃ own, entry.stringAt? "entry_hash" = some own ∧ chainLinked own xs = true := by
  rw [chainLinked]
  constructor
  · intro h
    split at h
    · next named own hnamed hown =>
      rw [Bool.and_eq_true, beq_iff_eq] at h
      obtain ⟨rfl, hrest⟩ := h
      exact ⟨hnamed, own, hown, hrest⟩
    · cases h
  · rintro ⟨hnamed, own, hown, hrest⟩
    simp only [hnamed, hown, beq_self_eq_true, Bool.true_and]
    exact hrest

/-- a beginning of a linked chain is linked -/
theorem chainLinked_of_prefix (h : chainLinked before xs = true) (hbegins : ys <+: xs) :
    chainLinked before ys = true := by
  induction ys generalizing before xs with
  | nil => rfl
  | cons y ys ih =>
    cases xs with
    | nil => exact absurd (List.prefix_nil.1 hbegins) (List.cons_ne_nil y ys)
    | cons x xs =>
      obtain ⟨rfl, hrest⟩ := List.cons_prefix_cons.1 hbegins
      obtain ⟨hnamed, own, hown, hlinked⟩ := chainLinked_cons.1 h
      exact chainLinked_cons.2 ⟨hnamed, own, hown, ih hlinked hrest⟩

/-- each entry of a linked chain names the start of the chain or the hash of one of its entries -/
theorem named_of_chainLinked (h : chainLinked before xs = true) (hentry : entry ∈ xs) :
    entry.stringAt? "previous_hash" = some before ∨
      ∃ x ∈ xs, x.stringAt? "entry_hash" = entry.stringAt? "previous_hash" := by
  induction xs generalizing before with
  | nil => exact absurd hentry List.not_mem_nil
  | cons x xs ih =>
    obtain ⟨hnamed, own, hown, hrest⟩ := chainLinked_cons.1 h
    rcases List.mem_cons.1 hentry with rfl | hmem
    · exact .inl hnamed
    · rcases ih hrest hmem with hstart | ⟨y, hy, heq⟩
      · exact .inr ⟨x, List.mem_cons_self, hown.trans hstart.symm⟩
      · exact .inr ⟨y, List.mem_cons_of_mem x hy, heq⟩

/-- no entry of a linked chain names a hash that is neither the start of the chain nor the hash of an entry -/
theorem not_named_of_chainLinked (h : chainLinked own xs = true) (hentry : entry ∈ xs) (hown : own ≠ before)
    (hfresh : ∀ x ∈ xs, x.stringAt? "entry_hash" ≠ some before) :
    entry.stringAt? "previous_hash" ≠ some before := by
  intro hnamed
  rcases named_of_chainLinked h hentry with hstart | ⟨x, hx, heq⟩
  · exact hown (Option.some.inj (hstart.symm.trans hnamed))
  · exact hfresh x hx (heq.trans hnamed)

/-! ## Different hashes -/

/-- the hashes of the entries are different from each other and from the one that the chain starts at -/
structure HashesDiffer (start : String) (entries : List Json) : Prop where
  fresh : ∀ x ∈ entries, x.stringAt? "entry_hash" ≠ some start
  pairwise : entries.Pairwise fun x y => x.stringAt? "entry_hash" ≠ y.stringAt? "entry_hash"

theorem HashesDiffer.tail (h : HashesDiffer before (entry :: xs)) (hown : entry.stringAt? "entry_hash" = some own) :
    HashesDiffer own xs := by
  obtain ⟨hhead, hrest⟩ := List.pairwise_cons.1 h.pairwise
  exact ⟨fun x hx heq => hhead x hx (hown.trans heq.symm), hrest⟩

theorem HashesDiffer.nodup (h : HashesDiffer before xs) : xs.Nodup := by
  refine h.pairwise.imp fun {x y} hne => ?_
  rintro rfl
  exact hne rfl

theorem HashesDiffer.own_ne (h : HashesDiffer before (entry :: xs)) (hown : entry.stringAt? "entry_hash" = some own) :
    own ≠ before := by
  rintro rfl
  exact h.fresh entry List.mem_cons_self hown

/-- the first entry alone names the start of the chain -/
theorem eq_first_of_named {x : Json} (h : chainLinked before (x :: xs) = true) (hdiffer : HashesDiffer before (x :: xs))
    (hentry : entry ∈ x :: xs) (hnamed : entry.stringAt? "previous_hash" = some before) : entry = x := by
  obtain ⟨-, own, hown, hlinked⟩ := chainLinked_cons.1 h
  rcases List.mem_cons.1 hentry with heq | hmem
  · exact heq
  · have hfresh : ∀ z ∈ xs, z.stringAt? "entry_hash" ≠ some before := fun z hz =>
      hdiffer.fresh z (List.mem_cons_of_mem x hz)
    exact absurd hnamed (not_named_of_chainLinked hlinked hmem (hdiffer.own_ne hown) hfresh)

/-- **Entries of a linked chain link up only in their own order,** from the first one on. -/
theorem prefix_of_chainLinked (hxs : chainLinked before xs = true) (hdiffer : HashesDiffer before xs)
    (hmem : ∀ y ∈ ys, y ∈ xs) (hys : chainLinked before ys = true) : ys <+: xs := by
  induction xs generalizing before ys with
  | nil =>
    obtain rfl : ys = [] := List.eq_nil_iff_forall_not_mem.2 fun y hy => List.not_mem_nil (hmem y hy)
    exact List.prefix_refl []
  | cons x xs ih =>
    cases ys with
    | nil => exact List.nil_prefix
    | cons y ys =>
      -- both rows begin with the entry that names the start
      obtain ⟨hnamed, own, hown, hlinked⟩ := chainLinked_cons.1 hys
      obtain rfl := eq_first_of_named hxs hdiffer (hmem y List.mem_cons_self) hnamed
      obtain ⟨-, own', hown', hlinked'⟩ := chainLinked_cons.1 hxs
      obtain rfl : own = own' := Option.some.inj (hown.symm.trans hown')
      -- it does not come again, so the others are among the rest of the chain
      have hrest : ∀ z ∈ ys, z ∈ xs := by
        intro z hz
        rcases List.mem_cons.1 (hmem z (List.mem_cons_of_mem y hz)) with rfl | hmem'
        · have hfresh : ∀ w ∈ ys, w.stringAt? "entry_hash" ≠ some before := fun w hw =>
            hdiffer.fresh w (hmem w (List.mem_cons_of_mem z hw))
          exact absurd hnamed (not_named_of_chainLinked hlinked hz (hdiffer.own_ne hown) hfresh)
        · exact hmem'
      exact List.cons_prefix_cons.2 ⟨rfl, ih hlinked' (hdiffer.tail hown) hrest hlinked⟩

/-! ## Trails -/

theorem auditTrailChainValid_array {b : Bool} :
    auditTrailChainValid (.json (.array xs)) = .bool b ↔ chainLinked genesisHash xs = b :=
  Operand.bool_inj

/-- a row without one of its entries is no beginning of it, unless the entry came last -/
theorem not_prefix_of_cut {front back : List Json} (hnodup : (front ++ entry :: back).Nodup) (hback : back ≠ []) :
    ¬ front ++ back <+: front ++ entry :: back := by
  intro hbegins
  obtain ⟨first, rest, rfl⟩ := List.exists_cons_of_ne_nil hback
  obtain ⟨rfl, -⟩ := List.cons_prefix_cons.1 ((List.prefix_append_right_inj front).1 hbegins)
  have hnotin := (List.nodup_cons.1 (List.nodup_append.1 hnodup).2.1).1
  exact hnotin List.mem_cons_self

/-- **Only the beginnings of a trail are accepted.** Take an accepted trail in which the hashes of the entries differ
from each other and from the genesis hash. Of the rows that are made up of its entries, in any selection, order and
repetition, those are accepted that are beginnings of the trail. So to cut out an entry that is not the last, to change
the order, or to use an entry twice makes the trail invalid. -/
theorem accepted_iff_prefix (hxs : auditTrailChainValid (.json (.array xs)) = .bool true)
    (hgenesis : ∀ x ∈ xs, x.stringAt? "entry_hash" ≠ some genesisHash)
    (hdistinct : xs.Pairwise fun x y => x.stringAt? "entry_hash" ≠ y.stringAt? "entry_hash") :
    (∀ ys, (∀ y ∈ ys, y ∈ xs) → (auditTrailChainValid (.json (.array ys)) = .bool true ↔ ys <+: xs)) ∧
    (∀ front entry back, xs = front ++ entry :: back → back ≠ [] →
      auditTrailChainValid (.json (.array (front ++ back))) = .bool false) ∧
    (∀ ys, ys.Perm xs → ys ≠ xs → auditTrailChainValid (.json (.array ys)) = .bool false) ∧
    (∀ ys, (∀ y ∈ ys, y ∈ xs) → ¬ ys.Nodup → auditTrailChainValid (.json (.array ys)) = .bool false) := by
  have hlinked := auditTrailChainValid_array.1 hxs
  have hdiffer : HashesDiffer genesisHash xs := ⟨hgenesis, hdistinct⟩
  have hiff : ∀ ys, (∀ y ∈ ys, y ∈ xs) → (chainLinked genesisHash ys = true ↔ ys <+: xs) := fun ys hmem =>
    ⟨prefix_of_chainLinked hlinked hdiffer hmem, chainLinked_of_prefix hlinked⟩
  simp only [auditTrailChainValid_array, ← Bool.not_eq_true]
  refine ⟨hiff, ?_, fun ys hperm hne => ?_, fun ys hmem hnodup => ?_⟩
  · rintro front entry back rfl hback
    rw [hiff (front ++ back) fun y hy => ?_]
    · exact not_prefix_of_cut hdiffer.nodup hback
    · rcases List.mem_append.1 hy with hy | hy
      · exact List.mem_append_left _ hy
      · exact List.mem_append_right _ (List.mem_cons_of_mem entry hy)
  · rw [hiff ys fun y hy => hperm.mem_iff.1 hy]
    exact fun hbegins => hne (hbegins.eq_of_length hperm.length_eq)
  · rw [hiff ys hmem]
    exact fun hbegins => hnodup (hdiffer.nodup.sublist hbegins.sublist)

/-- an entry with its own hash and the one before it -/
def trailEntry (previous own : String) : Json :=
  .object [("previous_hash", .string previous), ("entry_hash", .string own)]

/-- a trail of three entries, its first two, and the trail with the second one cut out, moved to the front and played
back at the end -/
theorem trail_of_three :
    let a := trailEntry genesisHash "sha256:aaa"
    let b := trailEntry "sha256:aaa" "sha256:bbb"
    let c := trailEntry "sha256:bbb" "sha256:ccc"
    auditTrailChainValid (.json (.array [a, b, c])) = .bool true ∧
      auditTrailChainValid (.json (.array [a, b])) = .bool true ∧
      auditTrailChainValid (.json (.array [a, c])) = .bool false ∧
      auditTrailChainValid (.json (.array [b, a, c])) = .bool false ∧
      auditTrailChainValid (.json (.array [a, b, c, b])) = .bool false := by
  intro a b c
  have hxs : auditTrailChainValid (.json (.array [a, b, c])) = .bool true := rfl
  have hgenesis : ∀ x ∈ [a, b, c], x.stringAt? "entry_hash" ≠ some genesisHash := by
    simp [a, b, c, trailEntry, Json.stringAt?, Json.get?, Record.get?, Json.string?, genesisHash]
  have hdistinct : [a, b, c].Pairwise fun x y => x.stringAt? "entry_hash" ≠ y.stringAt? "entry_hash" := by
    simp [a, b, c, trailEntry, Json.stringAt?, Json.get?, Record.get?, Json.string?]
  obtain ⟨hbegins, hcut, hmoved, hrepeated⟩ := accepted_iff_prefix hxs hgenesis hdistinct
  have hab : ∀ y ∈ [a, b], y ∈ [a, b, c] := by simp
  have hbac : [b, a, c] ≠ [a, b, c] := by simp [a, b, trailEntry, genesisHash]
  refine ⟨hxs, (hbegins [a, b] hab).2 ⟨[c], rfl⟩, hcut [a] b [c] rfl (List.cons_ne_nil c []), ?_, ?_⟩
  · exact hmoved [b, a, c] (List.Perm.swap a b [c]) hbac
  · exact hrepeated [a, b, c, b] (by simp) (by simp)

end Proviso.Verdict
