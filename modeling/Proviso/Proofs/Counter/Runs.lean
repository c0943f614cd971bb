/-
Runs of the machine that do as a reader does.

A run follows an outcome when it ends, ends as the outcome says, and keeps the counter in range and the open calls few on the
way (`Follows`). There is one rule for each step of the machine: it says what is left to show after that step.
-/
import Proviso.Proofs.Counter.Machine
import Proviso.Proofs.Grammar.Readers

namespace Proviso.Counter

open Reading

/-- the counter is in range, and there are not too many open calls -/
structure Moment.Within (low top : Nat) (x : Moment) : Prop where
  low : low ≤ x.depth
  high : x.depth ≤ depthLimit
  frames : x.frames ≤ top

/-- the refusal, at the token before which its cause shows -/
def placed (tokens : List Token) (r : Refusal) : ParseError := ⟨r.cause, positionOf tokens r.left⟩

/-- The cursor stands before these lexemes, and the counter is `depth`, which is in range. -/
structure At (tokens : List Token) (low : Nat) (ls : List Lexeme) (depth : Nat) (c : Cursor) : Prop where
  left : (tokens.drop c.pos).map (·.toLexeme) = ls
  counter : c.depth = depth
  above : low ≤ depth
  below : depth ≤ depthLimit

/-- The end of a run is as the outcome of a reader says, and after a success the counter is `depth`. -/
def Matches {α : Type} (tokens : List Token) (low : Nat) (o : Outcome α) (depth : Nat) :
    Except ParseError α → Cursor → Prop
  | .ok a, c => ∃ rest, o = .ok (a, rest) ∧ At tokens low rest depth c
  | .error e, c => (∃ r, o = .error r ∧ e = placed tokens r) ∧ low ≤ c.depth ∧ c.depth ≤ depthLimit

/-- A run leads from one cursor to another: no token is passed that is not there, and the moments on the way are within
bounds. -/
structure Leads (tokens : List Token) (low top : Nat) (c after : Cursor) : Prop where
  inside : after.pos ≤ max c.pos tokens.length
  moments : ∃ passed, after.moments = passed ++ c.moments ∧ ∀ x ∈ passed, x.Within low top

/-- The run from this cursor ends as the outcome of a reader says. -/
def Follows {α : Type} (tokens : List Token) (low top : Nat) (m : Machine α) (c : Cursor) (o : Outcome α)
    (depth : Nat) : Prop :=
  ∃ result after, m.run.run c = some (result, after) ∧ Leads tokens low top c after ∧
    Matches tokens low o depth result after

variable {α β : Type} {tokens : List Token} {low top frames : Nat} {m : Machine α} {c after : Cursor} {ls : List Lexeme}
  {o : Outcome α} {o' : Outcome β} {d d' : Nat}

theorem bind_run (m : Machine α) (f : α → Machine β) (c : Cursor) :
    (m >>= f).run.run c = (m.run.run c).bind fun p => match p.1 with
      | .ok a => (f a).run.run p.2
      | .error e => some (.error e, p.2) := by
  rw [ExceptT.run_bind, StateT.run_bind, Option.bind_eq_bind]
  congr 1
  funext p
  rcases p with ⟨e | a, c⟩ <;> rfl

theorem Leads.refl (tokens : List Token) (low top : Nat) (c : Cursor) : Leads tokens low top c c :=
  ⟨Nat.le_max_left _ _, [], rfl, by simp⟩

theorem Leads.trans {c' c'' : Cursor} (h : Leads tokens low top c c') (h' : Leads tokens low top c' c'') :
    Leads tokens low top c c'' := by
  obtain ⟨hinside, passed, hpassed, hwithin⟩ := h
  obtain ⟨hinside', passed', hpassed', hwithin'⟩ := h'
  refine ⟨by omega, passed' ++ passed, ?_, ?_⟩
  · rw [hpassed', hpassed, List.append_assoc]
  · intro x hx
    rcases List.mem_append.1 hx with hnew | hold
    · exact hwithin' x hnew
    · exact hwithin x hold

/-- the cursor stays, and one moment is noted -/
theorem Leads.note {c' : Cursor} (hpos : c'.pos = c.pos) {x : Moment} (hmoments : c'.moments = x :: c.moments)
    (hx : x.Within low top) : Leads tokens low top c c' := by
  refine ⟨by omega, [x], hmoments, ?_⟩
  intro y hy
  rwa [List.mem_singleton.1 hy]

theorem Leads.mono {low' : Nat} (h : Leads tokens low' top c after) (hlow : low ≤ low') :
    Leads tokens low top c after := by
  obtain ⟨hinside, passed, hpassed, hwithin⟩ := h
  refine ⟨hinside, passed, hpassed, fun x hx => ?_⟩
  obtain ⟨hlow', hhigh, hfew⟩ := hwithin x hx
  exact ⟨by omega, hhigh, hfew⟩

/-! ## Places -/

theorem At.getElem?_eq_none (h : At tokens low [] d c) : tokens[c.pos]? = none := by
  have hdrop := List.map_eq_nil_iff.1 h.left
  exact List.getElem?_eq_none (List.drop_eq_nil_iff.1 hdrop)

theorem At.exists_token {l : Lexeme} {rest : List Lexeme} (h : At tokens low (l :: rest) d c) :
    ∃ t, tokens[c.pos]? = some t ∧ t.toLexeme = l ∧ (tokens.drop (c.pos + 1)).map (·.toLexeme) = rest := by
  obtain ⟨t, more, hdrop, hl, hrest⟩ := List.map_eq_cons_iff.1 h.left
  refine ⟨t, ?_, hl, ?_⟩
  · rw [← List.head?_drop, hdrop, List.head?_cons]
  · rw [← List.tail_drop, hdrop, List.tail_cons, hrest]

/-- the place of the next token, as a refusal there gives it -/
theorem At.positionOf_eq (h : At tokens low ls d c) : positionOf tokens ls.length = here tokens c.pos := by
  have hlength : ls.length = tokens.length - c.pos := by rw [← h.left, List.length_map, List.length_drop]
  have hdrop : tokens.drop (tokens.length - ls.length) = tokens.drop c.pos := by
    rcases Nat.le_total c.pos tokens.length with hle | hge
    · rw [hlength, Nat.sub_sub_self hle]
    · rw [List.drop_eq_nil_of_le hge, List.drop_eq_nil_of_le (by omega)]
  rw [positionOf, hdrop, here, ← List.head?_drop]
  cases tokens.drop c.pos <;> rfl

/-! ## Ends -/

protected theorem Follows.pure {a : α} (h : At tokens low ls d c) : Follows tokens low top (pure a) c (.ok (a, ls)) d :=
  ⟨.ok a, c, rfl, .refl tokens low top c, ls, rfl, h⟩

protected theorem Follows.throw {r : Refusal} {e : ParseError} (h : At tokens low ls d c) (he : e = placed tokens r) :
    Follows tokens low top (throw e : Machine α) c (.error r) d' :=
  ⟨.error e, c, rfl, .refl tokens low top c, ⟨r, rfl, he⟩, by rw [h.counter]; exact Int.ofNat_le.2 h.above,
    by rw [h.counter]; exact Int.ofNat_le.2 h.below⟩

protected theorem Follows.refuseHere (cause : ParseError.Cause) (h : At tokens low ls d c) :
    Follows tokens low top (refuseHere tokens cause : Machine α) c (refuse cause ls) d' := by
  have hplaced : (⟨cause, here tokens c.pos⟩ : ParseError) = placed tokens ⟨cause, ls.length⟩ := by
    rw [placed, h.positionOf_eq]
  exact Follows.throw h hplaced

/-! ## Steps -/

/-- a run goes on from where its first part ends -/
protected theorem Follows.bind {f : α → Machine β} (h : Follows tokens low top m c o d)
    (hok : ∀ a rest c', o = .ok (a, rest) → At tokens low rest d c' → Follows tokens low top (f a) c' o' d')
    (herror : ∀ r, o = .error r → o' = .error r) : Follows tokens low top (m >>= f) c o' d' := by
  obtain ⟨result, after, hrun, hleads, hmatches⟩ := h
  cases result with
  | error e =>
    obtain ⟨⟨r, ho, he⟩, hrange⟩ := hmatches
    refine ⟨.error e, after, ?_, hleads, ⟨r, herror r ho, he⟩, hrange⟩
    rw [bind_run, hrun]
    rfl
  | ok a =>
    obtain ⟨rest, ho, hat⟩ := hmatches
    obtain ⟨result', after', hrun', hleads', hmatches'⟩ := hok a rest after ho hat
    refine ⟨result', after', ?_, hleads.trans hleads', hmatches'⟩
    rw [bind_run, hrun]
    exact hrun'

theorem Follows.bind_ok {f : α → Machine β} {a : α} {rest : List Lexeme} (h : Follows tokens low top m c o d)
    (ho : o = .ok (a, rest)) (hf : ∀ c', At tokens low rest d c' → Follows tokens low top (f a) c' o' d') :
    Follows tokens low top (m >>= f) c o' d' := by
  refine h.bind (fun a' rest' c' ho' hat => ?_) fun r hr => ?_
  · obtain ⟨rfl, rfl⟩ := Prod.mk.inj (Except.ok.inj (ho.symm.trans ho'))
    exact hf c' hat
  · cases ho.symm.trans hr

theorem Follows.bind_error {f : α → Machine β} {r : Refusal} (h : Follows tokens low top m c o d) (ho : o = .error r)
    (ho' : o' = .error r) : Follows tokens low top (m >>= f) c o' d' := by
  refine h.bind (fun a rest c' hok _ => ?_) fun r' hr => ?_
  · cases ho.symm.trans hok
  · rw [ho', Except.error.inj (ho.symm.trans hr)]

/-- a step that only moves the cursor -/
theorem Follows.of_step {f : α → Machine β} {a : α} {c' : Cursor} (hstep : m.run.run c = some (.ok a, c'))
    (hleads : Leads tokens low top c c') (h : Follows tokens low top (f a) c' o' d') :
    Follows tokens low top (m >>= f) c o' d' := by
  obtain ⟨result, after, hrun, hleads', hmatches⟩ := h
  refine ⟨result, after, ?_, hleads.trans hleads', hmatches⟩
  rw [bind_run, hstep]
  exact hrun

/-- the cursor is looked at -/
protected theorem Follows.get {f : Cursor → Machine α} (hf : Follows tokens low top (f c) c o d') :
    Follows tokens low top (get >>= f) c o d' :=
  Follows.of_step rfl (.refl tokens low top c) hf

/-- a refusal ends the run -/
theorem Follows.throw_bind {f : α → Machine β} {r : Refusal} {e : ParseError} (h : At tokens low ls d c)
    (he : e = placed tokens r) (ho : o' = .error r) : Follows tokens low top ((throw e : Machine α) >>= f) c o' d' := by
  have hthrown : Follows tokens low top (throw e : Machine α) c (.error r) d := Follows.throw h he
  exact hthrown.bind_error rfl ho

theorem Follows.refuseHere_bind {f : α → Machine β} {cause : ParseError.Cause} (h : At tokens low ls d c)
    (ho : o' = refuse cause ls) : Follows tokens low top ((refuseHere tokens cause : Machine α) >>= f) c o' d' := by
  have hrefused : Follows tokens low top (refuseHere tokens cause : Machine α) c (refuse cause ls) d :=
    Follows.refuseHere cause h
  exact hrefused.bind_error rfl ho

section

variable (h : At tokens low ls d c)

include h

theorem At.within (hframes : frames ≤ top) : Moment.Within low top ⟨frames, c.depth⟩ := by
  refine ⟨?_, ?_, hframes⟩
  · simpa [h.counter] using h.above
  · simpa [h.counter] using h.below

/-- a function is entered -/
protected theorem At.visit {f : Unit → Machine α} (hframes : frames ≤ top)
    (hf : ∀ c', At tokens low ls d c' → Follows tokens low top (f ()) c' o d') :
    Follows tokens low top (visit frames >>= f) c o d' := by
  have hat : At tokens low ls d { c with moments := ⟨frames, c.depth⟩ :: c.moments } :=
    ⟨h.left, h.counter, h.above, h.below⟩
  exact Follows.of_step rfl (.note rfl rfl (h.within hframes)) (hf _ hat)

/-- the counter is set to a value in range -/
protected theorem At.setDepth {f : Unit → Machine α} {depth : Nat} (hframes : frames ≤ top) (hlow : low ≤ depth)
    (hhigh : depth ≤ depthLimit)
    (hf : ∀ c', At tokens low ls depth c' → Follows tokens low top (f ()) c' o d') :
    Follows tokens low top ((setDepth frames depth : Machine Unit) >>= f) c o d' := by
  have hat : At tokens low ls depth { c with depth := depth, moments := ⟨frames, depth⟩ :: c.moments } :=
    ⟨h.left, rfl, hlow, hhigh⟩
  exact Follows.of_step rfl (.note rfl rfl (hat.within hframes)) (hf _ hat)

/-- a level is entered, unless none is left -/
protected theorem At.enter {f : Unit → Machine α} (hframes : frames ≤ top) (hdeep : depthLimit ≤ d → o = refuse .tooDeep ls)
    (hf : d < depthLimit → ∀ c', At tokens low ls (d + 1) c' → Follows tokens low top (f ()) c' o d') :
    Follows tokens low top (enter tokens frames >>= f) c o d' := by
  rcases Nat.lt_or_ge d depthLimit with hlt | hge
  · have hnot : ¬ c.depth ≥ depthLimit := by
      rw [h.counter]
      omega
    obtain ⟨c', hc'⟩ : ∃ c', c' = { c with depth := c.depth + 1, moments := ⟨frames, c.depth + 1⟩ :: c.moments } :=
      ⟨_, rfl⟩
    have hat : At tokens low ls (d + 1) c' := by
      subst hc'
      exact ⟨h.left, by simp [h.counter], Nat.le_succ_of_le h.above, hlt⟩
    have hmoments : c'.moments = ⟨frames, c'.depth⟩ :: c.moments := by rw [hc']
    refine Follows.of_step ?_ (.note (by rw [hc']) hmoments (hat.within hframes)) (hf hlt c' hat)
    rw [Counter.enter, bind_run]
    change (if c.depth ≥ depthLimit then _ else _ : Machine Unit).run.run c = _
    rw [if_neg hnot, hc']
    rfl
  · have hdeeper : c.depth ≥ depthLimit := by
      rw [h.counter]
      omega
    rw [Counter.enter, bind_assoc]
    refine Follows.get ?_
    rw [if_pos hdeeper]
    exact Follows.refuseHere_bind h (hdeep hge)

end

/-- the next token is passed -/
protected theorem At.skip {l : Lexeme} {rest : List Lexeme} (h : At tokens low (l :: rest) d c) {f : Unit → Machine α}
    (hf : ∀ c', At tokens low rest d c' → Follows tokens low top (f ()) c' o d') :
    Follows tokens low top (skip >>= f) c o d' := by
  obtain ⟨t, ht, -, hrest⟩ := h.exists_token
  have hinside : c.pos + 1 ≤ max c.pos tokens.length := by
    obtain ⟨hlt, -⟩ := List.getElem?_eq_some_iff.1 ht
    omega
  have hat : At tokens low rest d { c with pos := c.pos + 1 } := ⟨hrest, h.counter, h.above, h.below⟩
  exact Follows.of_step rfl ⟨hinside, [], rfl, by simp⟩ (hf _ hat)

section

variable (h : At tokens low ls d c)

include h

/-- the next token is looked at -/
protected theorem At.peek {f : Option Token → Machine α} (hnone : ls = [] → Follows tokens low top (f none) c o d')
    (hsome : ∀ t rest, ls = t.toLexeme :: rest → t.start = positionOf tokens ls.length →
      Follows tokens low top (f (some t)) c o d') : Follows tokens low top (peek tokens >>= f) c o d' := by
  have hstep : (Counter.peek tokens).run.run c = some (.ok tokens[c.pos]?, c) := rfl
  refine Follows.of_step hstep (.refl tokens low top c) ?_
  cases ls with
  | nil =>
    rw [h.getElem?_eq_none]
    exact hnone rfl
  | cons l rest =>
    obtain ⟨t, ht, rfl, -⟩ := h.exists_token
    have hplace : t.start = positionOf tokens (t.toLexeme :: rest).length := by
      rw [h.positionOf_eq, here, ht]
    rw [ht]
    exact hsome t rest rfl hplace

/-- whether the wanted lexeme comes next -/
protected theorem At.check {want : Lexeme} {f : Bool → Machine α} (hf : Follows tokens low top (f (ls.head? = some want)) c o d') :
    Follows tokens low top (check tokens want >>= f) c o d' := by
  rw [Counter.check, bind_assoc]
  refine h.peek (fun hnil => ?_) fun t rest hcons _ => ?_
  · subst hnil
    simpa using hf
  · subst hcons
    simpa using hf

/-- the wanted lexeme is taken if it comes next -/
theorem At.eat_bind {want : Lexeme} {f : Bool → Machine α}
    (hyes : ∀ rest c', ls = want :: rest → At tokens low rest d c' → Follows tokens low top (f true) c' o d')
    (hno : ls.head? ≠ some want → Follows tokens low top (f false) c o d') :
    Follows tokens low top (eat tokens want >>= f) c o d' := by
  rw [Counter.eat, bind_assoc]
  refine h.check ?_
  by_cases hnext : ls.head? = some want
  · obtain ⟨rest, rfl⟩ := List.head?_eq_some_iff.1 hnext
    rw [decide_eq_true hnext, if_pos rfl, bind_assoc]
    exact h.skip fun c' hat => hyes rest c' rfl hat
  · rw [decide_eq_false hnext, if_neg Bool.false_ne_true]
    exact hno hnext

protected theorem At.eat {want : Lexeme} {A B : Machine α}
    (hyes : ∀ rest c', ls = want :: rest → At tokens low rest d c' → Follows tokens low top A c' o d')
    (hno : ls.head? ≠ some want → Follows tokens low top B c o d') :
    Follows tokens low top (eat tokens want >>= fun taken => if taken then A else B) c o d' :=
  h.eat_bind hyes hno

/-- the wanted lexeme does not come next -/
theorem At.leave {want : Lexeme} {A B : Machine α} (hnext : ls.head? ≠ some want) (hf : Follows tokens low top B c o d') :
    Follows tokens low top (eat tokens want >>= fun taken => if taken then A else B) c o d' := by
  refine h.eat (fun rest c' hcons _ => ?_) fun _ => hf
  exact absurd (congrArg List.head? hcons) hnext

/-- an operator is taken if one comes next -/
protected theorem At.eatOperator {operator? : Lexeme → Option BinaryOp} {f : Option BinaryOp → Machine α}
    (hsome : ∀ l rest op c', ls = l :: rest → operator? l = some op → At tokens low rest d c' →
      Follows tokens low top (f (some op)) c' o d')
    (hnone : (∀ l ∈ ls.head?, operator? l = none) → Follows tokens low top (f none) c o d') :
    Follows tokens low top (eatOperator tokens operator? >>= f) c o d' := by
  rw [Counter.eatOperator, bind_assoc]
  refine h.peek (fun hnil => ?_) fun t rest hcons _ => ?_
  · subst hnil
    exact hnone (by simp)
  · subst hcons
    rw [Option.bind_some]
    cases hop : operator? t.toLexeme with
    | some op =>
      dsimp only
      rw [bind_assoc]
      exact h.skip fun c' hat => hsome _ rest op c' rfl hop hat
    | none => exact hnone (by simpa using hop)

/-- the wanted lexeme must come next -/
protected theorem At.expect {want : Lexeme} {f : Unit → Machine α}
    (hok : ∀ rest c', Reading.expect want ls = .ok rest → At tokens low rest d c' → Follows tokens low top (f ()) c' o d')
    (herror : ∀ r, Reading.expect want ls = .error r → o = .error r) :
    Follows tokens low top (expect tokens want >>= f) c o d' := by
  rw [Counter.expect, bind_assoc]
  refine h.peek (fun hnil => ?_) fun t rest hcons _ => ?_
  · subst hnil
    exact Follows.refuseHere_bind h (herror _ rfl)
  · subst hcons
    dsimp only
    by_cases ht : t.toLexeme = want
    · rw [if_pos ht]
      exact h.skip fun c' hat => hok rest c' (by rw [Reading.expect, if_pos ht]) hat
    · rw [if_neg ht]
      exact Follows.refuseHere_bind h (herror _ (by rw [Reading.expect, if_neg ht]; rfl))

/-- an identifier must come next -/
protected theorem At.expectIdentifier {cause : ParseError.Cause} {f : String → Machine α}
    (hok : ∀ l rest c', ls = l :: rest → l.kind = .identifier → At tokens low rest d c' →
      Follows tokens low top (f l.text) c' o d')
    (herror : (∀ l ∈ ls.head?, l.kind ≠ .identifier) → o = refuse cause ls) :
    Follows tokens low top (expectIdentifier tokens cause >>= f) c o d' := by
  rw [Counter.expectIdentifier, bind_assoc]
  refine h.peek (fun hnil => ?_) fun t rest hcons _ => ?_
  · subst hnil
    exact Follows.refuseHere_bind h (herror (by simp))
  · subst hcons
    dsimp only
    by_cases ht : t.kind = .identifier
    · rw [if_pos ht, bind_assoc]
      exact h.skip fun c' hat => hok _ rest c' rfl ht hat
    · rw [if_neg ht]
      exact Follows.refuseHere_bind h (herror (by simpa using ht))

/-- a position or a key in brackets comes next -/
protected theorem At.indexSegment {f : Segment → Machine α}
    (hok : ∀ l rest s c', ls = l :: rest → segment l = .ok s → At tokens low rest d c' →
      Follows tokens low top (f s) c' o d')
    (herror : ∀ l rest cause, ls = l :: rest → segment l = .error cause → o = refuse cause ls)
    (hend : ls = [] → o = refuse .unexpectedEnd ls) : Follows tokens low top (indexSegment tokens >>= f) c o d' := by
  rw [Counter.indexSegment, bind_assoc]
  refine h.peek (fun hnil => ?_) fun t rest hcons hplace => ?_
  · exact Follows.refuseHere_bind h (hend hnil)
  · subst hcons
    dsimp only
    rw [bind_assoc]
    refine h.skip fun c' hat => ?_
    cases hs : segment t.toLexeme with
    | ok s => exact hok _ rest s c' rfl hs hat
    | error cause => exact Follows.throw_bind hat (by rw [placed, ← hplace]) (herror _ rest cause rfl hs)

/-- the counter is set back, and the run ends -/
theorem At.restore {depth : Nat} {a : α} (hframes : frames ≤ top) (hlow : low ≤ depth) (hhigh : depth ≤ depthLimit) :
    Follows tokens low top (do setDepth frames depth; return a) c (.ok (a, ls)) depth :=
  h.setDepth hframes hlow hhigh fun _ hat => Follows.pure hat

end

/-- the wanted lexeme comes next -/
theorem At.take {want : Lexeme} {rest : List Lexeme} (h : At tokens low (want :: rest) d c) {A B : Machine α}
    (hf : ∀ c', At tokens low rest d c' → Follows tokens low top A c' o d') :
    Follows tokens low top (eat tokens want >>= fun taken => if taken then A else B) c o d' := by
  refine h.eat (fun rest' c' hcons hat => ?_) fun hnext => absurd rfl hnext
  obtain rfl := (List.cons.inj hcons).2
  exact hf c' hat

/-- a level is left, whether or not what is in it was refused -/
theorem Follows.lowered (h : Follows tokens (d + 1) top m c o (d + 1)) (hlow : low ≤ d) (hframes : frames ≤ top) :
    Follows tokens low top (do
      let result ← m.run
      lower frames
      return result : StateT Cursor Option (Except ParseError α)) c o d := by
  obtain ⟨result, after, hrun, hleads, hmatches⟩ := h
  have hrange : (d + 1 : Nat) ≤ after.depth ∧ after.depth ≤ depthLimit := by
    cases result with
    | error e => exact hmatches.2
    | ok a =>
      obtain ⟨rest, -, hat⟩ := hmatches
      rw [hat.counter]
      exact ⟨Int.le_refl _, Int.ofNat_le.2 hat.below⟩
  have hwithin : Moment.Within low top ⟨frames, after.depth - 1⟩ := by
    refine ⟨?_, ?_, hframes⟩
    · simp only
      omega
    · simp only
      omega
  refine ⟨result, { after with depth := after.depth - 1, moments := ⟨frames, after.depth - 1⟩ :: after.moments }, ?_,
    (hleads.mono (Nat.le_succ_of_le hlow)).trans (.note rfl rfl hwithin), ?_⟩
  · change (m.run.run c).bind _ = _
    rw [hrun]
    rfl
  · cases result with
    | error e => exact ⟨hmatches.1, hwithin.low, hwithin.high⟩
    | ok a =>
      obtain ⟨rest, ho, hat⟩ := hmatches
      have hcounter : after.depth - 1 = d := by
        rw [hat.counter]
        omega
      exact ⟨rest, ho, hat.left, hcounter, hlow, Nat.le_of_succ_le hat.below⟩

end Proviso.Counter
