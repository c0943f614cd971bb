/-
Limits of time: how old a timestamp may be, and how long a saga and its steps may take.

Limits of whole seconds are held against whole milliseconds (`CountsAs`), in whatever form the limit is given. So a time
that is over a limit by less than a millisecond is let through, by the verdicts on ages as by the one on sagas, and nothing
else is (`limits_kept_to_the_millisecond`). For sagas the time in all is that from the earliest start to the latest
completion (`overallTimes?_eq_some`).
-/
import Proviso.Proofs.Decimal.Spelling
import Proviso.Proofs.Instant.Elapsed
import Proviso.Proofs.Operand.Order
import Proviso.Proofs.Saga

namespace Proviso.Verdict

open Instant (AtMost JustOver)

variable {a b t r first last : Instant} {timestamp maxAge reference : Operand} {limit : Double} {m : Int}
  {times : List (Instant × Instant)}

/-! ## Limits -/

/-- a time may pass for no more than so many seconds -/
def Tolerated (seconds elapsed : Int) : Prop := AtMost seconds elapsed ∨ JustOver seconds elapsed

instance (seconds elapsed : Int) : Decidable (Tolerated seconds elapsed) := inferInstanceAs (Decidable (_ ∨ _))

/-- what is tolerated is what is within the limit, but for what is just over it -/
theorem tolerated_iff_atMost {seconds elapsed : Int} :
    (Tolerated seconds elapsed ↔ AtMost seconds elapsed) ↔ ¬ JustOver seconds elapsed := by
  unfold Tolerated AtMost JustOver
  omega

theorem Tolerated.atMost_iff {seconds elapsed : Int} (h : Tolerated seconds elapsed) :
    AtMost seconds elapsed ↔ ¬ JustOver seconds elapsed := by
  rw [← tolerated_iff_atMost, iff_true_left h]

/-- the double stands for so many seconds: what has passed is held against it in milliseconds -/
def CountsAs (limit : Double) (m : Int) : Prop :=
  ∀ a b : Instant, a.Near → b.Near → (a.secondsSince b).compare limit = some (Ord.compare (a.millisSince b) (1000 * m))

/-- the number is that of the integer: the two are one and the same double, but for the sign of a zero -/
def IsWhole (x : Double) (m : Int) : Prop := x.key = (Double.ofInt m).key

theorem IsWhole.countsAs (h : IsWhole limit m) : CountsAs limit m := by
  intro a b ha hb
  rw [← Instant.compare_secondsSince ha hb m, Double.compare, Double.compare, h]

theorem countsAs_ofWide (hm : 0 ≤ m) : CountsAs (.ofWide m) m :=
  fun _ _ ha hb => Instant.compare_secondsSince_ofWide ha hb hm

theorem CountsAs.le_iff (h : CountsAs limit m) (ha : a.Near) (hb : b.Near) :
    (a.secondsSince b).le limit = true ↔ Tolerated m (a.since b) := by
  rw [Tolerated, ← Instant.millis_le_iff, Double.le, h a b ha hb, Option.any_some, bne_iff_ne, ne_eq, Int.compare_eq_gt,
    Int.not_lt]

theorem CountsAs.lt_iff (h : CountsAs limit m) (ha : a.Near) (hb : b.Near) :
    limit.lt (a.secondsSince b) = true ↔ ¬ Tolerated m (a.since b) := by
  rw [Tolerated, ← Instant.millis_le_iff, Double.lt, Double.compare_comm, h a b ha hb, Option.map_some, Int.compare_swap,
    beq_iff_eq, Option.some_inj, Int.compare_eq_lt, Int.not_le]

/-! ## Ages -/

/-- The operand is a whole number of seconds: it denotes an exact integer, or the double of one, as `60.0` does. -/
def Seconds (o : Operand) (m : Int) : Prop := o.toInt? = some m ∨ ∃ x, o.toDouble? = some x ∧ IsWhole x m

theorem zero_le_ofUnits (num den : Nat) : (Double.zero false).le (.ofUnits false num den) = true := by
  have hzero : (Double.zero false).key = some 0 := rfl
  rw [Double.le, Double.compare_of_key hzero (Double.key_ofUnits false num den), Option.any_some, bne_iff_ne, ne_eq,
    Int.compare_eq_gt]
  simp

theorem IsWhole.zero_le (h : IsWhole limit m) (hm : 0 ≤ m) : (Double.zero false).le limit = true := by
  have hint : (Double.zero false).le (.ofInt m) = true := by
    rw [Double.ofInt, decide_eq_false (Int.not_lt.2 hm)]
    exact zero_le_ofUnits _ _
  rwa [Double.le, Double.compare, ← h] at hint

theorem zero_le_ofWide (hm : 0 ≤ m) : (Double.zero false).le (.ofWide m) = true := by
  rw [Double.ofWide, decide_eq_false (Int.not_lt.2 hm)]
  exact zero_le_ofUnits _ _

/-- a value of the record that denotes an exact integer denotes the double of it -/
theorem isWhole_of_toInt? {v : Json} (h : v.toInt? = some m) : ∃ x, v.toDouble? = some x ∧ IsWhole x m := by
  cases v with
  | null | bool | array | object => cases h
  | number n =>
    cases n with
    | float => cases h
    | int w =>
      obtain rfl := Option.some.inj h
      exact ⟨_, rfl, rfl⟩
  | string s => exact ⟨_, Decimal.plain?_of_canonical? h, rfl⟩

/-- a whole number of seconds that is not negative is an age that can be allowed -/
theorem exists_limit (h : Seconds maxAge m) (hm : 0 ≤ m) :
    ∃ limit, maxAge.toDouble? = some limit ∧ (Double.zero false).le limit = true ∧ CountsAs limit m := by
  have hwhole (hdouble : ∃ x, maxAge.toDouble? = some x ∧ IsWhole x m) :
      ∃ limit, maxAge.toDouble? = some limit ∧ (Double.zero false).le limit = true ∧ CountsAs limit m := by
    obtain ⟨x, hx, hwhole⟩ := hdouble
    exact ⟨x, hx, hwhole.zero_le hm, hwhole.countsAs⟩
  rcases h with hint | hdouble
  · cases maxAge with
    | absent | list => cases hint
    | int n =>
      obtain rfl := Option.some.inj hint
      exact ⟨_, rfl, zero_le_ofWide hm, countsAs_ofWide hm⟩
    | json v => exact hwhole (isWhole_of_toInt? hint)
  · exact hwhole hdouble

theorem near_of_instant? {o : Operand} (h : instant? o = some t) : t.Near := by
  obtain ⟨s, -, hs⟩ := Option.bind_eq_some_iff.1 h
  exact Instant.near_of_ofText? hs

/-- **An age is allowed as far as it passes for no more than the limit.** -/
theorem age_tolerated (ht : instant? timestamp = some t) (hr : instant? reference = some r)
    (hm : Seconds maxAge m) (hpos : 0 ≤ m) :
    isStale timestamp maxAge reference = .bool (decide (¬ Tolerated m (r.since t))) ∧
      isWithin timestamp maxAge reference = .bool (decide (Tolerated m (r.since t))) := by
  obtain ⟨limit, hlimit, hallowed, hcounts⟩ := exists_limit hm hpos
  have hage : age? timestamp maxAge reference = some (r.secondsSince t, limit) := by
    rw [age?, ht, hr, hlimit]
    exact if_pos hallowed
  have hnear := near_of_instant? ht
  have hnear' := near_of_instant? hr
  constructor
  · rw [isStale, hage]
    exact congrArg Operand.bool (Bool.eq_iff_iff.2 ((hcounts.lt_iff hnear' hnear).trans decide_eq_true_iff.symm))
  · rw [isWithin, hage]
    exact congrArg Operand.bool (Bool.eq_iff_iff.2 ((hcounts.le_iff hnear' hnear).trans decide_eq_true_iff.symm))

/-! ## Sagas -/

/-- the times of the completed steps, as long as there is a list of steps and each of them has its times -/
def completedTimes? (saga : Json) : Option (List (Instant × Instant)) :=
  (saga.listAt? "steps").bind fun steps => (steps.filter isCompleted).mapM stepTimes?

/-- what begins at the earliest start and ends at the latest completion -/
structure Spans (times : List (Instant × Instant)) (first last : Instant) : Prop where
  start : first ∈ times.map Prod.fst
  earliest : ∀ t ∈ times, first.le t.1 = true
  completion : last ∈ times.map Prod.snd
  latest : ∀ t ∈ times, t.2.le last = true

theorem Spans.unique {first' last' : Instant} (h : Spans times first last) (h' : Spans times first' last') :
    first = first' ∧ last = last' := by
  obtain ⟨t, ht, rfl⟩ := List.mem_map.1 h.start
  obtain ⟨u, hu, rfl⟩ := List.mem_map.1 h.completion
  obtain ⟨t', ht', rfl⟩ := List.mem_map.1 h'.start
  obtain ⟨u', hu', rfl⟩ := List.mem_map.1 h'.completion
  exact ⟨Instant.le_antisymm (h.earliest t' ht') (h'.earliest t ht),
    Instant.le_antisymm (h'.latest u hu) (h.latest u' hu')⟩

/-- a span that is widened by a step spans this one, too -/
theorem spans_widen {span times : Instant × Instant} {rest : List (Instant × Instant)}
    (h : Spans (widen span times :: rest) first last) : Spans (span :: times :: rest) first last := by
  obtain ⟨start, earliest, completion, latest⟩ := h
  obtain ⟨hearliest, hlatest⟩ := And.intro (earliest _ List.mem_cons_self) (latest _ List.mem_cons_self)
  constructor
  · simp only [List.map_cons, List.mem_cons, widen, Instant.min] at start ⊢
    rcases start with rfl | hrest
    · split
      · exact .inl rfl
      · exact .inr (.inl rfl)
    · exact .inr (.inr hrest)
  · have hmin := Instant.min_le span.1 times.1
    simp only [List.forall_mem_cons] at earliest ⊢
    exact ⟨Instant.le_trans hearliest hmin.1, Instant.le_trans hearliest hmin.2, earliest.2⟩
  · simp only [List.map_cons, List.mem_cons, widen, Instant.max] at completion ⊢
    rcases completion with rfl | hrest
    · split
      · exact .inr (.inl rfl)
      · exact .inl rfl
    · exact .inr (.inr hrest)
  · have hmax := Instant.le_max span.2 times.2
    simp only [List.forall_mem_cons] at latest ⊢
    exact ⟨Instant.le_trans hmax.1 hlatest, Instant.le_trans hmax.2 hlatest, latest.2⟩

theorem spans_foldl (span : Instant × Instant) (rest : List (Instant × Instant)) :
    Spans (span :: rest) (rest.foldl widen span).1 (rest.foldl widen span).2 := by
  induction rest generalizing span with
  | nil =>
    exact {
      start := List.mem_singleton.2 rfl
      earliest := List.forall_mem_singleton.2 (Instant.le_refl _)
      completion := List.mem_singleton.2 rfl
      latest := List.forall_mem_singleton.2 (Instant.le_refl _) }
  | cons times rest ih => exact spans_widen (ih (widen span times))

/-- **The time in all is that from the earliest start to the latest completion.** -/
theorem overallTimes?_eq_some : overallTimes? times = some (first, last) ↔ Spans times first last := by
  cases times with
  | nil => exact ⟨nofun, fun h => absurd h.start (List.not_mem_nil)⟩
  | cons span rest =>
    have hspans := spans_foldl span rest
    constructor
    · intro h
      obtain ⟨rfl, rfl⟩ := Prod.mk.inj (Option.some.inj h)
      exact hspans
    · intro h
      obtain ⟨hfirst, hlast⟩ := hspans.unique h
      exact congrArg some (Prod.ext hfirst hlast)

/-- both limits of the saga are whole numbers of seconds -/
def Limited (saga : Json) (perStep total : Int) : Prop :=
  ∃ limits step all, saga.get? "timeout" = some (.object limits) ∧
    Json.numberAt? (.object limits) "per_step_seconds" = some step ∧ IsWhole step perStep ∧
    Json.numberAt? (.object limits) "total_seconds" = some all ∧ IsWhole all total

/-- each step, and all of them together, meet a limit in seconds, in the sense of `ok` -/
structure Meets (ok : Int → Int → Prop) (perStep total : Int) (times : List (Instant × Instant)) : Prop where
  step : ∀ t ∈ times, ok perStep (t.2.since t.1)
  span : ∀ first last, Spans times first last → ok total (last.since first)

theorem near_of_completedTimes? {saga : Json} (h : completedTimes? saga = some times) {t : Instant × Instant}
    (ht : t ∈ times) : t.1.Near ∧ t.2.Near := by
  obtain ⟨steps, -, hread⟩ := Option.bind_eq_some_iff.1 h
  obtain ⟨step, -, hstep⟩ := exists_of_mem_mapM hread ht
  have hnear {key : String} {i : Instant} (hi : instantAt? step key = some i) : i.Near := by
    obtain ⟨s, -, hs⟩ := Option.bind_eq_some_iff.1 hi
    exact Instant.near_of_ofText? hs
  rw [stepTimes?] at hstep
  split at hstep
  · next started finished hstarted hfinished =>
    obtain rfl := Option.some.inj hstep
    exact ⟨hnear hstarted, hnear hfinished⟩
  · cases hstep

theorem Spans.near {saga : Json} (h : Spans times first last) (htimes : completedTimes? saga = some times) :
    first.Near ∧ last.Near := by
  obtain ⟨t, ht, rfl⟩ := List.mem_map.1 h.start
  obtain ⟨u, hu, rfl⟩ := List.mem_map.1 h.completion
  exact ⟨(near_of_completedTimes? htimes ht).1, (near_of_completedTimes? htimes hu).2⟩

theorem withinLimit_iff (h : CountsAs limit m) {times : Instant × Instant} (hnear : times.1.Near ∧ times.2.Near) :
    withinLimit limit times = true ↔ times.2.lt times.1 = false ∧ Tolerated m (times.2.since times.1) := by
  rw [withinLimit, Bool.and_eq_true, Bool.not_eq_true', Bool.not_eq_true', ← Bool.not_eq_true (limit.lt _),
    h.lt_iff hnear.2 hnear.1, not_not]

theorem Meets.atMost_iff {perStep total : Int} (h : Meets Tolerated perStep total times) :
    Meets AtMost perStep total times ↔ Meets (fun seconds elapsed => ¬ JustOver seconds elapsed) perStep total times := by
  constructor
  · rintro ⟨hstep, hspan⟩
    exact ⟨fun t ht => (h.step t ht).atMost_iff.1 (hstep t ht),
      fun first last hspans => (h.span first last hspans).atMost_iff.1 (hspan first last hspans)⟩
  · rintro ⟨hstep, hspan⟩
    exact ⟨fun t ht => (h.step t ht).atMost_iff.2 (hstep t ht),
      fun first last hspans => (h.span first last hspans).atMost_iff.2 (hspan first last hspans)⟩

/-- with both limits the verdict is one on the times of the completed steps -/
theorem timeoutValid_eq {saga : Json} {perStep total : Int} (h : Limited saga perStep total) :
    ∃ step all, IsWhole step perStep ∧ IsWhole all total ∧
      timeoutValid saga = (completedTimes? saga).any fun times =>
        times.all (withinLimit step) && (overallTimes? times).all fun span => (span.2.secondsSince span.1).le all := by
  obtain ⟨limits, step, all, htimeout, hstep, hperStep, hall, htotal⟩ := h
  refine ⟨step, all, hperStep, htotal, ?_⟩
  rw [timeoutValid, htimeout, completedTimes?]
  cases saga.listAt? "steps" with
  | none => rfl
  | some steps =>
    dsimp only [Option.bind_some]
    rw [hstep, hall]
    cases (steps.filter isCompleted).mapM stepTimes? with
    | none => rfl
    | some times =>
      dsimp only [Option.any_some]
      cases overallTimes? times with
      | none => rfl
      | some span =>
        obtain ⟨first, last⟩ := span
        rw [Option.all_some]

/-- **A saga is accepted when no completed step ends before it starts, and each step and the time in all pass for no more
than the limits.** -/
theorem timeoutValid_iff {saga : Json} {perStep total : Int} (h : Limited saga perStep total) :
    timeoutValid saga = true ↔ ∃ times, completedTimes? saga = some times ∧
      (∀ t ∈ times, t.2.lt t.1 = false) ∧ Meets Tolerated perStep total times := by
  obtain ⟨step, all, hperStep, htotal, hverdict⟩ := timeoutValid_eq h
  rw [hverdict, Option.any_eq_true]
  refine exists_congr fun times => and_congr_right fun htimes => ?_
  have hstep (t : Instant × Instant) (ht : t ∈ times) :=
    withinLimit_iff hperStep.countsAs (near_of_completedTimes? htimes ht)
  have hspan (span : Instant × Instant) (hspans : Spans times span.1 span.2) :=
    htotal.countsAs.le_iff (hspans.near htimes).2 (hspans.near htimes).1
  rw [Bool.and_eq_true, List.all_eq_true, Option.all_eq_true]
  constructor
  · rintro ⟨hsteps, hall⟩
    refine ⟨fun t ht => ((hstep t ht).1 (hsteps t ht)).1, fun t ht => ((hstep t ht).1 (hsteps t ht)).2, ?_⟩
    intro first last hspans
    have hkept := hall (first, last) (overallTimes?_eq_some.2 hspans)
    exact (hspan (first, last) hspans).1 hkept
  · rintro ⟨hforward, hsteps, hall⟩
    refine ⟨fun t ht => (hstep t ht).2 ⟨hforward t ht, hsteps t ht⟩, fun span hoverall => ?_⟩
    have hspans : Spans times span.1 span.2 := overallTimes?_eq_some.1 hoverall
    exact (hspan span hspans).2 (hall _ _ hspans)

theorem sagaTimeoutValid_eq {saga : Json} {perStep total : Int} (h : Limited saga perStep total) :
    sagaTimeoutValid (.json saga) = .bool (timeoutValid saga) := by
  obtain ⟨limits, -, -, htimeout, -⟩ := h
  cases saga with
  | object fields => exact onSaga_object timeoutValid fields
  | null | bool | number | string | array => cases htimeout

theorem limited_limits (steps : List Json) : Limited (.object (withSteps limits steps [])) 60 90 :=
  ⟨_, _, _, rfl, rfl, rfl, rfl, rfl⟩

/-- a saga of one step takes as long as the step -/
theorem meets_singleton {ok : Int → Int → Prop} {perStep total : Int} {t : Instant × Instant}
    (hstep : ok perStep (t.2.since t.1)) (htotal : ok total (t.2.since t.1)) : Meets ok perStep total [t] := by
  refine ⟨List.forall_mem_singleton.2 hstep, fun first last hspans => ?_⟩
  obtain rfl := List.mem_singleton.1 hspans.start
  obtain rfl := List.mem_singleton.1 hspans.completion
  exact htotal

/-! ## Limits of both kinds -/

/-- **Limits of time are kept to the millisecond.** Two timestamps are within an age of whole seconds, in whatever form it is
given, when they are no further apart or just over it, by less than a millisecond; so the verdicts on them are right exactly
when they are not just over it. With limits of whole seconds, which may be negative, a saga is accepted exactly when its
completed steps have their times, none ends before it starts, and each of them and all together meet their limits in the same
sense; so in an accepted saga the limits are really kept exactly when nothing is just over them. -/
theorem limits_kept_to_the_millisecond (timestamp maxAge reference : Operand) (saga : Json) :
    (∀ {t r : Instant} {m : Int}, instant? timestamp = some t → instant? reference = some r →
      Seconds maxAge m → 0 ≤ m →
      isStale timestamp maxAge reference = .bool (decide (¬ Tolerated m (r.since t))) ∧
      isWithin timestamp maxAge reference = .bool (decide (Tolerated m (r.since t))) ∧
      (isStale timestamp maxAge reference = .bool (decide (¬ AtMost m (r.since t))) ↔ ¬ JustOver m (r.since t)) ∧
      (isWithin timestamp maxAge reference = .bool (decide (AtMost m (r.since t))) ↔ ¬ JustOver m (r.since t))) ∧
    (∀ {perStep total : Int}, Limited saga perStep total →
      (sagaTimeoutValid (.json saga) = .bool true ↔ ∃ times, completedTimes? saga = some times ∧
        (∀ t ∈ times, t.2.lt t.1 = false) ∧ Meets Tolerated perStep total times) ∧
      (∀ times, completedTimes? saga = some times → sagaTimeoutValid (.json saga) = .bool true →
        (Meets AtMost perStep total times ↔
          Meets (fun seconds elapsed => ¬ JustOver seconds elapsed) perStep total times))) := by
  refine ⟨fun ht hr hm hpos => ?_, fun hlimits => ?_⟩
  · obtain ⟨hstale, hwithin⟩ := age_tolerated ht hr hm hpos
    refine ⟨hstale, hwithin, ?_, ?_⟩
    · rw [hstale, Operand.bool_inj, decide_eq_decide, not_iff_not, tolerated_iff_atMost]
    · rw [hwithin, Operand.bool_inj, decide_eq_decide, tolerated_iff_atMost]
  · rw [sagaTimeoutValid_eq hlimits, Operand.bool_inj]
    refine ⟨timeoutValid_iff hlimits, fun times htimes haccepted => ?_⟩
    obtain ⟨times', htimes', -, hmeets⟩ := (timeoutValid_iff hlimits).1 haccepted
    obtain rfl := Option.some.inj (htimes.symm.trans htimes')
    exact hmeets.atMost_iff

/-- after an hour and a millisecond a timestamp is older than an hour, and a step that takes a minute is accepted -/
theorem hour_and_minute_limited :
    isStale (.string "2026-01-01T00:00:00Z") (.int 3600) (.string "2026-01-01T01:00:00.001Z") = .bool true ∧
    isWithin (.string "2026-01-01T00:00:00Z") (.int 3600) (.string "2026-01-01T01:00:00.001Z") = .bool false ∧
    sagaTimeoutValid (.json (.object (withSteps limits
      [sagaStep "s1" "completed" "1000" "2026-01-01T00:00:00Z" "2026-01-01T00:01:00Z"] []))) = .bool true := by
  have hstart : instant? (.string "2026-01-01T00:00:00Z") = some ⟨739922, 0, 0⟩ := by decide +kernel
  have hend : instant? (.string "2026-01-01T01:00:00.001Z") = some ⟨739922, 3600, 1000000⟩ := by decide +kernel
  have hage : Seconds (.int 3600) 3600 := .inl rfl
  obtain ⟨hages, hsagas⟩ := limits_kept_to_the_millisecond (.string "2026-01-01T00:00:00Z") (.int 3600)
    (.string "2026-01-01T01:00:00.001Z") (.object (withSteps limits
      [sagaStep "s1" "completed" "1000" "2026-01-01T00:00:00Z" "2026-01-01T00:01:00Z"] []))
  obtain ⟨hstale, hwithin, -, -⟩ := hages hstart hend hage (by decide)
  refine ⟨hstale, hwithin, (hsagas (limited_limits _)).1.2 ?_⟩
  refine ⟨[(⟨739922, 0, 0⟩, ⟨739922, 60, 0⟩)], by decide +kernel, by decide, meets_singleton (by decide) (by decide)⟩

/-- Half a millisecond past the hour a timestamp is not older than an hour, and a step that takes half a millisecond more
than a minute is accepted. -/
theorem half_millisecond_overlooked :
    (∃ t r, instant? (.string "2026-01-01T00:00:00Z") = some t ∧
      instant? (.string "2026-01-01T01:00:00.0005Z") = some r ∧ ¬ AtMost 3600 (r.since t)) ∧
    isStale (.string "2026-01-01T00:00:00Z") (.int 3600) (.string "2026-01-01T01:00:00.0005Z") = .bool false ∧
    isWithin (.string "2026-01-01T00:00:00Z") (.int 3600) (.string "2026-01-01T01:00:00.0005Z") = .bool true ∧
    sagaTimeoutValid (.json (.object (withSteps limits
      [sagaStep "s1" "completed" "1000" "2026-01-01T00:00:00Z" "2026-01-01T00:01:00.0005Z"] []))) = .bool true := by
  have hstart : instant? (.string "2026-01-01T00:00:00Z") = some ⟨739922, 0, 0⟩ := by decide +kernel
  have hend : instant? (.string "2026-01-01T01:00:00.0005Z") = some ⟨739922, 3600, 500000⟩ := by decide +kernel
  have hage : Seconds (.int 3600) 3600 := .inl rfl
  obtain ⟨hstale, hwithin⟩ := age_tolerated hstart hend hage (by decide)
  refine ⟨⟨_, _, hstart, hend, by decide⟩, hstale, hwithin, ?_⟩
  have hlimits := limited_limits [sagaStep "s1" "completed" "1000" "2026-01-01T00:00:00Z" "2026-01-01T00:01:00.0005Z"]
  rw [sagaTimeoutValid_eq hlimits, Operand.bool_inj, timeoutValid_iff hlimits]
  exact ⟨[(⟨739922, 0, 0⟩, ⟨739922, 60, 500000⟩)], by decide +kernel, by decide, meets_singleton (by decide) (by decide)⟩

end Proviso.Verdict
