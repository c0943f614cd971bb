/-
The store and its queue stay in step.

The queue holds the texts of the entries, each once (`Queued`), so the two have the same size, and as long as the store
is full there is an oldest text to let go: the queue never runs out on the way to more room (`Queued.makeRoom`). With
that, every request keeps the store sound (`read_sound`): in step with its queue, no larger than its capacity, and each
expression under a text that denotes it. So it is after every run from the empty store (`sound_after`). An expression is
taken in only if its text is not held at that moment, so this part of a request keeps any sound store sound, also one that
has changed since the text was looked up (`takeIn_sound`).
-/
import Proviso.Proofs.Store.Transparent

namespace Proviso

namespace Store

variable {capacity : Nat} {entries : Std.HashMap String Expr} {order : List String} {oldest text : String}

/-! ## The queue -/

/-- the queue holds the texts of the entries, each once -/
structure Queued (entries : Std.HashMap String Expr) (order : List String) : Prop where
  nodup : order.Nodup
  mem_iff : ∀ text, text ∈ order ↔ text ∈ entries

theorem queued_empty : Queued empty.entries empty.order := by
  refine ⟨List.nodup_nil, fun text => ?_⟩
  simp [empty]

theorem Queued.size_eq (h : Queued entries order) : entries.size = order.length := by
  have hperm : entries.keys.Perm order := by
    rw [List.perm_ext_iff_of_nodup Std.HashMap.nodup_keys h.nodup]
    intro text
    rw [Std.HashMap.mem_keys, h.mem_iff]
  rw [← Std.HashMap.length_keys, hperm.length_eq]

theorem Queued.pop (h : Queued entries (oldest :: order)) : Queued (entries.erase oldest) order := by
  obtain ⟨hfresh, hnodup⟩ := List.nodup_cons.1 h.nodup
  refine ⟨hnodup, fun text => ?_⟩
  rw [Std.HashMap.mem_erase, ← h.mem_iff, List.mem_cons, beq_eq_false_iff_ne]
  constructor
  · intro hmem
    refine ⟨?_, .inr hmem⟩
    rintro rfl
    exact hfresh hmem
  · rintro ⟨hne, heq | hmem⟩
    · exact absurd heq.symm hne
    · exact hmem

theorem Queued.push (h : Queued entries order) (hnew : text ∉ entries) (e : Expr) :
    Queued (entries.insert text e) (order ++ [text]) := by
  refine ⟨?_, fun other => ?_⟩
  · refine List.nodup_append.2 ⟨h.nodup, by simp, fun a ha b hb heq => hnew ?_⟩
    rw [← List.mem_singleton.1 hb, ← heq]
    exact (h.mem_iff a).1 ha
  · rw [List.mem_append, List.mem_singleton, Std.HashMap.mem_insert, h.mem_iff, beq_iff_eq, or_comm, eq_comm]

/-- making room keeps the queue in step, adds nothing, leaves room, and does not find the queue run out -/
theorem Queued.makeRoom (h : Queued entries order) (hcapacity : 0 < capacity) :
    let room := Store.makeRoom capacity entries order
    Queued room.store.entries room.store.order ∧ (∀ text ∈ room.store.entries, text ∈ entries) ∧
      room.store.size < capacity ∧ room.cleared = false := by
  induction order generalizing entries with
  | nil =>
    -- the store is as large as its queue, so an empty queue leaves room for one
    have hsize : entries.size < capacity := by
      rw [h.size_eq]
      exact hcapacity
    rw [Store.makeRoom, if_pos hsize]
    exact ⟨h, fun _ hmem => hmem, hsize, rfl⟩
  | cons oldest order ih =>
    by_cases hsize : entries.size < capacity
    · rw [Store.makeRoom, if_pos hsize]
      exact ⟨h, fun _ hmem => hmem, hsize, rfl⟩
    · rw [Store.makeRoom, if_neg hsize]
      obtain ⟨hqueued, hsub, hroom, hcleared⟩ := ih h.pop
      exact ⟨hqueued, fun text hmem => (Std.HashMap.mem_erase.1 (hsub text hmem)).2, hroom, hcleared⟩

/-! ## One request -/

/-- what holds of a store at all times -/
structure Sound (capacity : Nat) (s : Store) : Prop where
  queued : Queued s.entries s.order
  size_le : s.size ≤ capacity
  faithful : Faithful s.entries

theorem sound_empty (capacity : Nat) : Sound capacity empty :=
  ⟨queued_empty, Nat.zero_le capacity, faithful_empty⟩

variable {s : Store}

theorem Sound.insert {e : Expr} (h : Sound capacity s) (hroom : s.size < capacity) (hnew : text ∉ s.entries)
    (htext : Expr.ofText? text = .ok e) : Sound capacity (s.insert text e) where
  queued := h.queued.push hnew e
  size_le := by
    have hsize : (s.insert text e).size = s.size + 1 := by
      rw [size, Store.insert, Std.HashMap.size_insert, if_neg hnew, size]
    rw [hsize]
    exact hroom
  faithful := h.faithful.insert htext

theorem takeIn_of_no_capacity {e : Expr} : s.takeIn 0 text e = ({ expr := .ok e, hit := false }, s) := if_pos rfl

theorem takeIn_of_held {e : Expr} (h : text ∈ s.entries) :
    s.takeIn capacity text e = ({ expr := .ok e, hit := false }, s) := by
  rw [takeIn, if_pos h, ite_self]

theorem takeIn_of_new {e : Expr} (h : text ∉ s.entries) (hcapacity : 0 < capacity) :
    s.takeIn capacity text e =
      let room := makeRoom capacity s.entries s.order
      ({ expr := .ok e, hit := false, evicted := room.gone, cleared := room.cleared }, room.store.insert text e) := by
  rw [takeIn, if_neg (Nat.ne_of_gt hcapacity), if_neg h]

theorem takeIn_hit {e : Expr} : (s.takeIn capacity text e).1.hit = false := by
  unfold takeIn
  split
  · rfl
  · split <;> rfl

/-- taking in an expression keeps a sound store sound and does not find its queue run out -/
theorem takeIn_sound {e : Expr} (h : Sound capacity s) (htext : Expr.ofText? text = .ok e) :
    Sound capacity (s.takeIn capacity text e).2 ∧ (s.takeIn capacity text e).1.cleared = false := by
  rcases Nat.eq_zero_or_pos capacity with rfl | hcapacity
  · rw [takeIn_of_no_capacity]
    exact ⟨h, rfl⟩
  by_cases hheld : text ∈ s.entries
  · rw [takeIn_of_held hheld]
    exact ⟨h, rfl⟩
  · -- making room adds nothing, so the text is still new when it is taken in
    obtain ⟨hqueued, hsub, hlt, hcleared⟩ := h.queued.makeRoom hcapacity
    have hroom : Sound capacity (makeRoom capacity s.entries s.order).store :=
      ⟨hqueued, Nat.le_of_lt hlt, h.faithful.makeRoom capacity s.order⟩
    rw [takeIn_of_new hheld hcapacity]
    exact ⟨hroom.insert hlt (fun hmem => hheld (hsub text hmem)) htext, hcleared⟩

theorem read_of_held (h : text ∈ s.entries) :
    s.read capacity text = ({ expr := .ok s.entries[text], hit := true }, s) := by
  rw [read, Std.HashMap.getElem?_eq_some_getElem h]

theorem read_of_malformed {fault : SyntaxError} (h : text ∉ s.entries) (htext : Expr.ofText? text = .error fault) :
    s.read capacity text = ({ expr := .error fault, hit := false }, s) := by
  simp only [read, Std.HashMap.getElem?_eq_none h, htext]

theorem read_of_new {e : Expr} (h : text ∉ s.entries) (htext : Expr.ofText? text = .ok e) :
    s.read capacity text = s.takeIn capacity text e := by
  simp only [read, Std.HashMap.getElem?_eq_none h, htext]

theorem hit_iff : (s.read capacity text).1.hit = true ↔ text ∈ s.entries := by
  by_cases hheld : text ∈ s.entries
  · rw [read_of_held hheld]
    exact iff_of_true rfl hheld
  · refine iff_of_false ?_ hheld
    cases htext : Expr.ofText? text with
    | error fault => simp [read_of_malformed hheld htext]
    | ok e => simp [read_of_new hheld htext, takeIn_hit]

/-- a text that can be read is held from then on, unless nothing is kept -/
theorem held_of_read {e : Expr} (htext : Expr.ofText? text = .ok e) (hcapacity : 0 < capacity) :
    text ∈ (s.read capacity text).2.entries := by
  by_cases hheld : text ∈ s.entries
  · rwa [read_of_held hheld]
  · rw [read_of_new hheld htext, takeIn_of_new hheld hcapacity]
    exact Std.HashMap.mem_insert_self

/-- **A request keeps the store sound,** and it does not find the queue run out. -/
theorem read_sound (h : Sound capacity s) (text : String) :
    Sound capacity (s.read capacity text).2 ∧ (s.read capacity text).1.cleared = false := by
  by_cases hheld : text ∈ s.entries
  · rw [read_of_held hheld]
    exact ⟨h, rfl⟩
  cases htext : Expr.ofText? text with
  | error fault =>
    rw [read_of_malformed hheld htext]
    exact ⟨h, rfl⟩
  | ok e =>
    rw [read_of_new hheld htext]
    exact takeIn_sound h htext

/-! ## Runs -/

/-- the store after some requests, each at its reading of the clock -/
def after (options : Options) (capacity : Nat) (s : Store) (rs : List (Instant × Request)) : Store :=
  rs.foldl (fun s (clock, r) => (step options capacity clock s r).2.2) s

theorem sound_after (options : Options) (h : Sound capacity s) (rs : List (Instant × Request)) :
    Sound capacity (after options capacity s rs) := by
  induction rs generalizing s with
  | nil => exact h
  | cons request rs ih =>
    obtain ⟨clock, r⟩ := request
    exact ih (read_sound h r.text).1

/-- **The store keeps to its form.** After any requests to a store that starts empty, the queue holds the texts of the
entries, each once; there are no more entries than the capacity, and all their texts are well formed. The next request
never finds the queue run out, and it leaves the store as it is when its text is malformed or held already. -/
theorem kept_in_form (options : Options) (capacity : Nat) (rs : List (Instant × Request)) (clock : Instant)
    (r : Request) :
    let s := after options capacity empty rs
    let reading := (step options capacity clock s r).2.1
    let s' := (step options capacity clock s r).2.2
    s.order.Nodup ∧ (∀ text, text ∈ s.order ↔ text ∈ s.entries) ∧ s.size ≤ capacity ∧
      (∀ text ∈ s.entries, ∃ e, Expr.ofText? text = .ok e) ∧ reading.cleared = false ∧
      ((∃ fault, Expr.ofText? r.text = .error fault) → s' = s) ∧ (reading.hit = true → s' = s) := by
  intro s reading s'
  have hsound : Sound capacity s := sound_after options (sound_empty capacity) rs
  have hheld (hmem : r.text ∈ s.entries) : s' = s := congrArg Prod.snd (read_of_held hmem)
  refine ⟨hsound.queued.nodup, hsound.queued.mem_iff, hsound.size_le, ?_, (read_sound hsound r.text).2, ?_, ?_⟩
  · intro text hmem
    exact ⟨s.entries[text], hsound.faithful text _ (Std.HashMap.getElem?_eq_some_getElem hmem)⟩
  · rintro ⟨fault, hfault⟩
    by_cases hmem : r.text ∈ s.entries
    · exact hheld hmem
    · exact congrArg Prod.snd (read_of_malformed hmem hfault)
  · intro hhit
    exact hheld (hit_iff.1 hhit)

/-- a store with room for one text, which has been taken in after another one was let go: a malformed text changes
nothing, and neither does the newer text when it comes again -/
theorem full_store_kept :
    let s := after {} 1 empty [(⟨0, 0, 0⟩, .compile "a"), (⟨1, 0, 0⟩, .compile "b")]
    (step {} 1 ⟨2, 0, 0⟩ s (.compile "(")).2.2 = s ∧ (step {} 1 ⟨2, 0, 0⟩ s (.compile "b")).2.2 = s := by
  intro s
  have hkept := kept_in_form {} 1 [(⟨0, 0, 0⟩, .compile "a"), (⟨1, 0, 0⟩, .compile "b")] ⟨2, 0, 0⟩
  have hfault : ∃ fault, Expr.ofText? "(" = .error fault := by
    have hbad : (Expr.ofText? "(").toBool = false := by decide +kernel
    cases htext : Expr.ofText? "(" with
    | error fault => exact ⟨fault, rfl⟩
    | ok e =>
      rw [htext] at hbad
      cases hbad
  have hhit : (step {} 1 ⟨2, 0, 0⟩ s (.compile "b")).2.1.hit = true := by
    have hgood : (Expr.ofText? "b").toBool = true := by decide +kernel
    cases htext : Expr.ofText? "b" with
    | error fault =>
      rw [htext] at hgood
      cases hgood
    | ok e => exact hit_iff.2 (held_of_read htext Nat.one_pos)
  obtain ⟨-, -, -, -, -, hmalformed, -⟩ := hkept (.compile "(")
  obtain ⟨-, -, -, -, -, -, hheld⟩ := hkept (.compile "b")
  exact ⟨hmalformed hfault, hheld hhit⟩

end Store

end Proviso
