/-
What a full store lets go: the expression that came first.

Reading a text does one of three things to a sound store (`Change`, `Sound.change`): nothing, when the text is held or
malformed; it takes a new text in, when there is room; or it lets the oldest text go and takes the new one in. So the
queue is always the end of the row of newcomers, as long as the capacity allows (`order_after`): texts that are found do
not move, malformed ones do not count, and a text that was let go comes in again as the newest.
-/
import Mathlib.Data.List.DropRight
import Proviso.Proofs.Store.Queue

namespace Proviso

namespace Store

variable {capacity : Nat} {s s' : Store} {text : String} {reading : Reading}

/-! ## One request -/

/-- the text was not held, and it could be read -/
def Reading.isNew (reading : Reading) : Bool := !reading.hit && reading.expr.toBool

/-- what reading a text does to a store: nothing; or it takes the text in; or it takes it in for the oldest one -/
inductive Change (capacity : Nat) (s : Store) (text : String) (reading : Reading) (s' : Store) : Prop
  | none (old : reading.isNew = false) (evicted : reading.evicted = []) (same : s' = s) :
    Change capacity s text reading s'
  | added (new : reading.isNew = true) (room : s.order.length < capacity) (evicted : reading.evicted = [])
    (order : s'.order = s.order ++ [text]) : Change capacity s text reading s'
  | replaced {oldest : String} {kept : List String} (new : reading.isNew = true) (full : s.order.length = capacity)
    (first : s.order = oldest :: kept) (evicted : reading.evicted = [oldest]) (order : s'.order = kept ++ [text]) :
    Change capacity s text reading s'

/-- a new text takes the place of the oldest one in a full store -/
theorem Change.of_full (h : Change capacity s text reading s') (hnew : reading.isNew = true)
    (hfull : s.order.length = capacity) :
    ∃ oldest kept, s.order = oldest :: kept ∧ reading.evicted = [oldest] ∧ s'.order = kept ++ [text] := by
  cases h with
  | none old _ _ => exact absurd (old.symm.trans hnew) (by decide)
  | added _ room _ _ => exact absurd hfull (Nat.ne_of_lt room)
  | replaced _ _ first evicted order => exact ⟨_, _, first, evicted, order⟩

/-- a new text joins the others in a store that is not full -/
theorem Change.of_room (h : Change capacity s text reading s') (hnew : reading.isNew = true)
    (hroom : s.order.length ≠ capacity) : reading.evicted = [] ∧ s'.order = s.order ++ [text] := by
  cases h with
  | none old _ _ => exact absurd (old.symm.trans hnew) (by decide)
  | added _ _ evicted order => exact ⟨evicted, order⟩
  | replaced _ full _ _ _ => exact absurd full hroom

/-- a text that does not come new changes nothing -/
theorem Change.of_old (h : Change capacity s text reading s') (hold : reading.isNew = false) :
    reading.evicted = [] ∧ s' = s := by
  cases h with
  | none _ evicted same => exact ⟨evicted, same⟩
  | added new _ _ _ => exact absurd (hold.symm.trans new) (by decide)
  | replaced new _ _ _ _ => exact absurd (hold.symm.trans new) (by decide)

theorem change_of_held (h : text ∈ s.entries) :
    Change capacity s text (s.read capacity text).1 (s.read capacity text).2 := by
  rw [read_of_held h]
  exact .none rfl rfl rfl

theorem change_of_malformed {fault : SyntaxError} (h : text ∉ s.entries) (htext : Expr.ofText? text = .error fault) :
    Change capacity s text (s.read capacity text).1 (s.read capacity text).2 := by
  rw [read_of_malformed h htext]
  exact .none rfl rfl rfl

theorem isNew_of_new {e : Expr} (h : text ∉ s.entries) (htext : Expr.ofText? text = .ok e) (hcapacity : 0 < capacity) :
    (s.read capacity text).1.isNew = true := by
  rw [read_of_new h htext, takeIn_of_new h hcapacity]
  rfl

theorem makeRoom_of_room (h : s.size < capacity) : makeRoom capacity s.entries s.order = ⟨s, [], false⟩ := by
  obtain ⟨entries, order⟩ := s
  have hroom : entries.size < capacity := h
  cases order with
  | nil => rw [makeRoom, if_pos hroom]
  | cons oldest order => rw [makeRoom, if_pos hroom]

/-- a full store lets its oldest text go, and no other -/
theorem Queued.makeRoom_of_full {entries : Std.HashMap String Expr} {oldest : String} {kept : List String}
    (h : Queued entries (oldest :: kept)) (hfull : entries.size = capacity) :
    Store.makeRoom capacity entries (oldest :: kept) = ⟨⟨entries.erase oldest, kept⟩, [oldest], false⟩ := by
  have hsize := h.size_eq
  rw [List.length_cons] at hsize
  have hroom : (⟨entries.erase oldest, kept⟩ : Store).size < capacity := by
    rw [size, h.pop.size_eq]
    omega
  rw [Store.makeRoom, if_neg (Nat.not_lt.2 (Nat.le_of_eq hfull.symm)), makeRoom_of_room hroom]

theorem Sound.change (h : Sound capacity s) (hcapacity : 0 < capacity) (text : String) :
    Change capacity s text (s.read capacity text).1 (s.read capacity text).2 := by
  by_cases hheld : text ∈ s.entries
  · exact change_of_held hheld
  cases htext : Expr.ofText? text with
  | error fault => exact change_of_malformed hheld htext
  | ok e =>
    have hnew := isNew_of_new hheld htext hcapacity
    have hread := (read_of_new hheld htext).trans (takeIn_of_new hheld hcapacity)
    have hsize : s.size = s.order.length := h.queued.size_eq
    rcases Nat.lt_or_eq_of_le h.size_le with hroom | hfull
    · rw [makeRoom_of_room hroom] at hread
      refine .added hnew (hsize ▸ hroom) ?_ ?_
      · rw [hread]
      · rw [hread]
        rfl
    · obtain ⟨entries, order⟩ := s
      cases order with
      | nil =>
        -- a full store that keeps something has an oldest text
        rw [List.length_nil] at hsize
        omega
      | cons oldest kept =>
        rw [h.queued.makeRoom_of_full hfull] at hread
        refine .replaced hnew (hsize ▸ hfull) rfl ?_ ?_
        · rw [hread]
        · rw [hread]
          rfl

/-! ## Runs -/

/-- the texts that came new to the store in the course of some requests, in the order in which they came -/
def newcomers (options : Options) (capacity : Nat) (s : Store) : List (Instant × Request) → List String
  | [] => []
  | (clock, r) :: rs =>
    let now := step options capacity clock s r
    (if now.2.1.isNew then [r.text] else []) ++ newcomers options capacity now.2.2 rs

/-- the end of a row without the first element of it -/
theorem rtake_of_rtake_succ {texts rest : List String} {n : Nat} {first : String}
    (h : texts.rtake (n + 1) = first :: rest) (hlength : rest.length = n) : texts.rtake n = rest := by
  have hlong := congrArg List.length h
  rw [List.rtake, List.length_drop, List.length_cons] at hlong
  have htail := congrArg List.tail h
  rw [List.rtake, List.tail_drop, List.tail_cons] at htail
  rw [List.rtake, ← htail]
  congr 1
  omega

/-- a change keeps the queue to the end of the newcomers -/
theorem Change.order_eq (h : Change capacity s text reading s') {past : List String}
    (horder : s.order = past.rtake capacity) :
    s'.order = (past ++ if reading.isNew then [text] else []).rtake capacity := by
  cases h with
  | none old _ same =>
    rw [same, horder, old]
    simp
  | added new room _ order =>
    -- there is room, so the newcomers so far are all held
    obtain ⟨n, rfl⟩ : ∃ n, capacity = n + 1 := ⟨capacity - 1, by omega⟩
    rw [horder, List.rtake, List.length_drop] at room
    have hall : ∀ m, n ≤ m → past.rtake m = past := by
      intro m hm
      rw [List.rtake, show past.length - m = 0 by omega, List.drop_zero]
    rw [order, new, if_pos rfl, List.rtake_concat_succ, horder, hall n (Nat.le_refl n), hall (n + 1) (Nat.le_succ n)]
  | replaced new full first _ order =>
    rw [first] at horder full
    subst full
    rw [order, new, if_pos rfl, List.length_cons, List.rtake_concat_succ, rtake_of_rtake_succ horder.symm rfl]

theorem order_after (options : Options) (hcapacity : 0 < capacity) (h : Sound capacity s) {past : List String}
    (horder : s.order = past.rtake capacity) (rs : List (Instant × Request)) :
    (after options capacity s rs).order = (past ++ newcomers options capacity s rs).rtake capacity := by
  induction rs generalizing s past with
  | nil =>
    rw [newcomers, List.append_nil]
    exact horder
  | cons request rs ih =>
    obtain ⟨clock, r⟩ := request
    have hnext := (h.change hcapacity r.text).order_eq horder
    rw [newcomers, ← List.append_assoc]
    exact ih (read_sound h r.text).1 hnext

/-- **First in, first out.** After any requests to a store that starts empty, the texts it holds, from the oldest to the
newest, are the last newcomers, as many as there is room for. The next text is found exactly when it is one of them. If
it comes new to a full store, then the oldest text goes, and no other; if it comes new to a store that is not full, or
does not come new, then nothing goes. -/
theorem first_in_first_out (options : Options) (hcapacity : 0 < capacity) (rs : List (Instant × Request))
    (clock : Instant) (r : Request) :
    let s := after options capacity empty rs
    let past := newcomers options capacity empty rs
    let reading := (step options capacity clock s r).2.1
    let s' := (step options capacity clock s r).2.2
    s.order = past.rtake (Nat.min capacity past.length) ∧ (∀ text, text ∈ s.entries ↔ text ∈ s.order) ∧
      (reading.hit = true ↔ r.text ∈ s.order) ∧
      (reading.isNew = true → s.order.length = capacity →
        ∃ oldest kept, s.order = oldest :: kept ∧ reading.evicted = [oldest] ∧ s'.order = kept ++ [r.text]) ∧
      (reading.isNew = true → s.order.length ≠ capacity → reading.evicted = [] ∧ s'.order = s.order ++ [r.text]) ∧
      (reading.isNew = false → reading.evicted = [] ∧ s' = s) := by
  intro s past reading s'
  have hsound : Sound capacity s := sound_after options (sound_empty capacity) rs
  have horder : s.order = past.rtake capacity :=
    order_after options hcapacity (sound_empty capacity) (List.rtake_nil capacity).symm rs
  have hmin : past.rtake (Nat.min capacity past.length) = past.rtake capacity := by
    rw [List.rtake, List.rtake, show past.length - Nat.min capacity past.length = past.length - capacity by grind]
  have hchange : Change capacity s r.text reading s' := hsound.change hcapacity r.text
  refine ⟨hmin ▸ horder, fun text => (hsound.queued.mem_iff text).symm, ?_, hchange.of_full, hchange.of_room,
    hchange.of_old⟩
  rw [hsound.queued.mem_iff]
  exact hit_iff

/-- a store with room for two texts, of which the older one has been found again: it is still the one that goes -/
theorem found_again_goes_first :
    let s := after {} 2 empty [(⟨0, 0, 0⟩, .compile "a"), (⟨1, 0, 0⟩, .compile "b"), (⟨2, 0, 0⟩, .compile "a")]
    s.order = ["a", "b"] ∧ (step {} 2 ⟨3, 0, 0⟩ s (.compile "c")).2.1.evicted = ["a"] := by
  have hnew : ∀ text ∈ ["a", "b", "c"], ∀ s : Store, text ∉ s.entries → (s.read 2 text).1.isNew = true := by
    have hgood : ∀ text ∈ ["a", "b", "c"], (Expr.ofText? text).toBool = true := by decide +kernel
    intro text hmem s hheld
    cases htext : Expr.ofText? text with
    | error fault => simpa [htext, Except.toBool] using hgood text hmem
    | ok e => exact isNew_of_new hheld htext Nat.two_pos
  have hfifo := first_in_first_out {} Nat.two_pos
  -- there is room for the first two texts
  obtain ⟨-, hheld₀, -, -, hroom₀, -⟩ := hfifo [] ⟨0, 0, 0⟩ (.compile "a")
  have ha : (after {} 2 empty [(⟨0, 0, 0⟩, .compile "a")]).order = ["a"] :=
    (hroom₀ (hnew "a" (by decide) _ ((hheld₀ "a").not.2 (by decide))) (by decide)).2
  obtain ⟨-, hheld₁, -, -, hroom₁, -⟩ := hfifo [(⟨0, 0, 0⟩, .compile "a")] ⟨1, 0, 0⟩ (.compile "b")
  rw [ha] at hheld₁ hroom₁
  have hb : (after {} 2 empty [(⟨0, 0, 0⟩, .compile "a"), (⟨1, 0, 0⟩, .compile "b")]).order = ["a", "b"] :=
    (hroom₁ (hnew "b" (by decide) _ ((hheld₁ "b").not.2 (by decide))) (by decide)).2
  -- the third request finds its text and moves nothing
  obtain ⟨-, -, hfound, -, -, hstays⟩ :=
    hfifo [(⟨0, 0, 0⟩, .compile "a"), (⟨1, 0, 0⟩, .compile "b")] ⟨2, 0, 0⟩ (.compile "a")
  rw [hb] at hfound
  have hsame := (hstays (by rw [Reading.isNew, hfound.2 (by decide)]; rfl)).2
  intro s
  have horder : s.order = ["a", "b"] := (congrArg Store.order hsame).trans hb
  obtain ⟨-, hheld, -, hfull, -, -⟩ :=
    hfifo [(⟨0, 0, 0⟩, .compile "a"), (⟨1, 0, 0⟩, .compile "b"), (⟨2, 0, 0⟩, .compile "a")] ⟨3, 0, 0⟩ (.compile "c")
  have hc : "c" ∉ s.entries := by
    rw [hheld "c", horder]
    decide
  obtain ⟨oldest, kept, hfirst, hevicted, -⟩ := hfull (hnew "c" (by decide) s hc) (by rw [horder]; rfl)
  obtain ⟨rfl, -⟩ := List.cons.inj (horder.symm.trans hfirst)
  exact ⟨horder, hevicted⟩

end Store

end Proviso
