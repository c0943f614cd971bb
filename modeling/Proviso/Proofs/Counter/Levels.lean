/-
The machine does as the readers of each level do.

Where the counter is `d`, a function of the machine does what the reader of level `d` does, and leaves the counter at `d`
(`Keeps`). This is shown function by function, from lists and terms up to implications, with what is known of the levels below;
so it holds of every level (`kept`). A loop follows the recursion of its reader: it goes one level deeper where the reader goes
to the next operand of its row, or has one `.length` less to spend, and only the function around it sets the counter back.
-/
import Proviso.Proofs.Counter.Runs

namespace Proviso.Counter

open Grammar Reading

variable {α : Type} {tokens : Source} {low top frames d depth : Nat} {c : Cursor} {ls : List Lexeme}

/-- where the counter is `d`, the function does as the reader does, with at most `height` more calls open at once -/
def Keeps (tokens : Source) (height : Nat) (m : Nat → Machine α) (d : Nat) (read : List Lexeme → Outcome α) : Prop :=
  ∀ ⦃low top frames : Nat⦄ ⦃c : Cursor⦄ ⦃ls : List Lexeme⦄, At tokens low ls d c → frames + height ≤ top →
    Follows tokens low top (m frames) c (read ls) d

/-- how many calls may be open below an expression `d` levels deep: eleven for each level -/
def span (d : Nat) : Nat := 11 * (depthLimit - d)

theorem span_of_lt (h : d < depthLimit) : span d = span (d + 1) + 11 := by
  unfold span
  omega

/-! ## Expressions and lists -/

theorem keeps_expression
    (hdeeper : d < depthLimit → Keeps tokens (span (d + 1) + 10) tokens.implication (d + 1) (implications (d + 1)).run) :
    Keeps tokens (span d) tokens.expression d (readers d).nested.run := by
  intro low top frames c ls hat htop
  rw [Source.expression]
  refine hat.visit (by omega) fun c hat => ?_
  refine hat.enter (by omega) (fun hge => ?_) fun hlt c hat' => ?_
  · rw [readers_nested_of_le hge]
    rfl
  · have hspan := span_of_lt hlt
    rw [readers_nested hlt]
    exact (hdeeper hlt ⟨hat'.left, hat'.counter, Nat.le_refl _, hat'.below⟩ (by omega)).lowered hat.above (by omega)

/-- the items of a list that is not empty, and its closing lexeme -/
def itemsUntil (close : Lexeme) (item : Reader α) (ls : List Lexeme) : Outcome (List α) :=
  match separated item comma ls with
  | .error e => .error e
  | .ok (xs, rest) =>
    match Reading.expect close rest with
    | .error e => .error e
    | .ok rest => .ok (xs, rest)

theorem listUntil_cons (close l : Lexeme) (item : Reader α) (rest : List Lexeme) :
    listUntil close item (l :: rest) = if l = close then .ok ([], rest) else itemsUntil close item (l :: rest) := rfl

section

variable (hexpression : Keeps tokens (span d) tokens.expression d (readers d).nested.run)

include hexpression

theorem keeps_listItems (close : Lexeme) :
    Keeps tokens (span d + 1) (tokens.listItems close) d (itemsUntil close (readers d).nested) := by
  intro low top frames c ls hat htop
  unfold itemsUntil
  fun_induction separated (readers d).nested comma ls generalizing c with
  | case1 ls r he =>
    rw [Source.listItems]
    exact (hexpression hat (by omega)).bind_error he rfl
  | case2 ls x hx =>
    rw [Source.listItems]
    refine (hexpression hat (by omega)).bind_ok hx fun c hat => ?_
    refine hat.leave (by simp) ?_
    dsimp only
    refine hat.expect (fun rest c hclose hat => ?_) fun r hclose => ?_
    · rw [hclose]
      exact Follows.pure hat
    · rw [hclose]
  | case3 ls x rest r hrest hx ih =>
    rw [Source.listItems]
    refine (hexpression hat (by omega)).bind_ok hx fun c hat => ?_
    refine hat.take fun c hat => ?_
    have hitems := ih hat
    rw [hrest] at hitems
    exact hitems.bind_error rfl rfl
  | case4 ls x rest xs out hrest hx ih =>
    rw [Source.listItems]
    refine (hexpression hat (by omega)).bind_ok hx fun c hat => ?_
    refine hat.take fun c hat => ?_
    have hitems := ih hat
    rw [hrest] at hitems
    dsimp only at hitems ⊢
    cases hclose : Reading.expect close out with
    | error r =>
      rw [hclose] at hitems
      exact hitems.bind_error rfl rfl
    | ok rest =>
      rw [hclose] at hitems
      exact hitems.bind_ok rfl fun c hat => Follows.pure hat
  | case5 ls x l rest hx hl =>
    rw [Source.listItems]
    refine (hexpression hat (by omega)).bind_ok hx fun c hat => ?_
    refine hat.leave (by simpa using hl) ?_
    dsimp only
    refine hat.expect (fun rest c hclose hat => ?_) fun r hclose => ?_
    · rw [hclose]
      exact Follows.pure hat
    · rw [hclose]

theorem keeps_list (close : Lexeme) : Keeps tokens (span d + 1) (tokens.list close) d (listUntil close (readers d).nested) := by
  intro low top frames c ls hat htop
  rw [Source.list]
  refine hat.visit (by omega) fun c hat => ?_
  refine hat.eat (fun rest c hcons hat => ?_) fun hnext => ?_
  · rw [hcons, listUntil_cons, if_pos rfl]
    exact Follows.pure hat
  · have hitems := keeps_listItems hexpression close hat htop
    cases ls with
    | nil => exact hitems
    | cons l rest =>
      rw [listUntil_cons, if_neg (by simpa using hnext)]
      exact hitems

/-! ## Terms -/

/-- a word, a field or a call, where the cursor has passed its name -/
theorem keeps_named {name : Token} {rest : List Lexeme} (hplace : name.start = positionOf tokens (rest.length + 1))
    (hat : At tokens low rest d c) (htop : frames + (span d + 2) ≤ top) :
    Follows tokens low top (tokens.named frames name) c
      (Reading.named (readers d).nested name.text (name.toLexeme :: rest) rest) d := by
  rw [Source.named]
  refine hat.visit (by omega) fun c hat => ?_
  unfold Reading.named
  cases word? name.text with
  | some l => exact Follows.pure hat
  | none =>
    dsimp only
    refine hat.check ?_
    cases rest with
    | nil => exact Follows.pure hat
    | cons l more =>
      dsimp only
      by_cases hopen : l = openParen
      · rw [if_pos (by simp [hopen]), if_pos hopen]
        cases Builtin.ofName? name.text with
        | none => exact Follows.throw hat (by rw [placed, hplace]; rfl)
        | some f =>
          dsimp only
          refine hat.skip fun c hat => ?_
          refine (keeps_list hexpression closeParen hat (by omega)).bind (fun args rest c hargs hat => ?_) fun r hargs => ?_
          · rw [hargs]
            dsimp only
            by_cases harity : f.accepts args.length
            · rw [if_pos harity, if_pos harity]
              exact Follows.pure hat
            · rw [if_neg harity, if_neg harity]
              exact Follows.throw hat (by rw [placed, hplace]; rfl)
          · rw [hargs]
      · rw [if_neg (by simp [hopen]), if_neg hopen]
        exact Follows.pure hat

theorem keeps_primary : Keeps tokens (span d + 3) tokens.primary d (Reading.primary (readers d).nested) := by
  intro low top frames c ls hat htop
  rw [Source.primary]
  refine hat.visit (by omega) fun c hat => ?_
  refine hat.peek (fun hnil => ?_) fun t rest hcons hplace => ?_
  · subst hnil
    exact Follows.refuseHere _ hat
  · subst hcons
    dsimp only
    refine hat.skip fun c hat => ?_
    unfold Reading.primary
    dsimp only
    by_cases hparen : t.toLexeme = openParen
    · have hkind : t.kind = .paren := congrArg Lexeme.kind hparen
      rw [hkind]
      dsimp only
      rw [if_pos hparen, if_pos hparen]
      refine (hexpression hat (by omega)).bind (fun e rest c he hat => ?_) fun r he => ?_
      · rw [he]
        dsimp only
        refine hat.expect (fun rest c hclose hat => ?_) fun r hclose => ?_
        · rw [hclose]
          exact Follows.pure hat
        · rw [hclose]
      · rw [he]
    by_cases hbracket : t.toLexeme = openBracket
    · have hkind : t.kind = .bracket := congrArg Lexeme.kind hbracket
      rw [hkind]
      dsimp only
      rw [if_neg hparen, if_neg hparen, if_pos hbracket, if_pos hbracket]
      refine (keeps_list hexpression closeBracket hat (by omega)).bind (fun items rest c hitems hat => ?_)
        fun r hitems => ?_
      · rw [hitems]
        exact Follows.pure hat
      · rw [hitems]
    cases t.kind with
    | number =>
      dsimp only
      cases number? t.text with
      | some n => exact Follows.pure hat
      | none => exact Follows.throw hat (by rw [placed, hplace])
    | string => exact Follows.pure hat
    | identifier => exact keeps_named hexpression hplace hat (by omega)
    | operator | dot | comma | paren | bracket | arrow =>
      dsimp only
      rw [if_neg hparen, if_neg hparen, if_neg hbracket, if_neg hbracket]
      exact Follows.throw hat (by rw [placed, hplace])

/-! ## Suffixes -/

/-- the lambda of `.every`, where the cursor stands before its parenthesis -/
theorem follows_every {p : Path} {place : Nat} {body : List Lexeme} (hat : At tokens low (openParen :: body) d c)
    (htop : frames + (span d + 1) ≤ top) :
    Follows tokens low top (tokens.every frames (.field p) place) c
      (match lambda (readers d).nested body with
        | .error e => .error e
        | .ok ((param, e), rest) => .ok (.every p param e, rest)) d := by
  rw [Source.every]
  refine hat.visit (by omega) fun c hat => ?_
  refine hat.expect (fun body' c hopen hat => ?_) fun r hopen => ?_
  · obtain rfl := (List.cons.inj (expect_eq_ok.1 hopen)).2
    unfold lambda
    refine hat.expectIdentifier (fun l rest c hcons hkind hat' => ?_) fun hkind => ?_
    · subst hcons
      dsimp only
      rw [if_neg (not_not_intro hkind)]
      refine hat'.expect (fun rest c harrow hat => ?_) fun r harrow => ?_
      · rw [harrow]
        dsimp only
        refine (hexpression hat (by omega)).bind (fun e rest c he hat => ?_) fun r he => ?_
        · rw [he]
          dsimp only
          refine hat.expect (fun rest c hclose hat => ?_) fun r hclose => ?_
          · rw [hclose]
            exact Follows.pure hat
          · rw [hclose]
        · rw [he]
      · rw [harrow]
    · cases body with
      | nil => rfl
      | cons param rest =>
        dsimp only
        rw [if_pos (by simpa using hkind)]
        rfl
  · cases (expect_eq_ok.2 rfl).symm.trans hopen

end

variable {k : Expr → Machine α} {o : Outcome α} {e : Expr} {rest : List Lexeme} {d' : Nat}

theorem suffix_dot (hat : At tokens low (dot :: rest) d c)
    (hf : ∀ c', At tokens low rest d c' →
      Follows tokens low top (tokens.propertyOf frames e (positionOf tokens (rest.length + 1)) >>= k) c' o d') :
    Follows tokens low top (tokens.moreSuffixes frames e >>= k) c o d' := by
  have hplace := hat.positionOf_eq
  rw [List.length_cons] at hplace
  rw [Source.moreSuffixes, bind_assoc]
  refine Follows.get ?_
  dsimp only
  rw [bind_assoc, ← hplace]
  refine hat.eat_bind (fun rest c hcons hat => ?_) fun hnext => absurd rfl hnext
  obtain rfl := (List.cons.inj hcons).2
  exact hf c hat

theorem suffix_bracket (hat : At tokens low (openBracket :: rest) d c)
    (hf : ∀ c', At tokens low rest d c' →
      Follows tokens low top (tokens.indexOf frames e (positionOf tokens (rest.length + 1)) >>= k) c' o d') :
    Follows tokens low top (tokens.moreSuffixes frames e >>= k) c o d' := by
  have hplace := hat.positionOf_eq
  rw [List.length_cons] at hplace
  rw [Source.moreSuffixes, bind_assoc]
  refine Follows.get ?_
  dsimp only
  rw [bind_assoc, ← hplace]
  refine hat.eat_bind (fun rest c hcons _ => absurd (List.cons.inj hcons).1 (by decide)) fun _ => ?_
  change Follows tokens low top ((eat tokens openBracket >>= _) >>= k) c o d'
  rw [bind_assoc]
  refine hat.eat_bind (fun rest c hcons hat => ?_) fun hnext => absurd rfl hnext
  obtain rfl := (List.cons.inj hcons).2
  exact hf c hat

theorem suffix_end (hat : At tokens low ls d c) (hdot : ls.head? ≠ some dot) (hbracket : ls.head? ≠ some openBracket)
    (hf : Follows tokens low top (k e) c o d') : Follows tokens low top (tokens.moreSuffixes frames e >>= k) c o d' := by
  rw [Source.moreSuffixes, bind_assoc]
  refine Follows.get ?_
  dsimp only
  rw [bind_assoc]
  refine hat.eat_bind (fun rest c hcons _ => absurd (congrArg List.head? hcons) hdot) fun _ => ?_
  change Follows tokens low top ((eat tokens openBracket >>= _) >>= k) c o d'
  rw [bind_assoc]
  exact hat.eat_bind (fun rest c hcons _ => absurd (congrArg List.head? hcons) hbracket) fun _ => hf

theorem property_unnamed {place : Nat} (hat : At tokens low ls d c) (hname : ∀ l ∈ ls.head?, l.kind ≠ .identifier)
    (ho : o = refuse .noPropertyName ls) : Follows tokens low top (tokens.propertyOf frames e place >>= k) c o d' := by
  rw [Source.propertyOf, bind_assoc]
  refine hat.expectIdentifier (fun l rest c hcons hkind _ => ?_) fun _ => ho
  exact absurd hkind (hname l (by simp [hcons]))

/-- after the dot stands an identifier -/
theorem property_named {place : Nat} {name : Lexeme} (hat : At tokens low (name :: rest) d c)
    (hkind : name.kind = .identifier)
    (hlength : name.text = "length" → ∀ c', At tokens low rest d c' →
      Follows tokens low top (enter tokens frames >>= fun _ => tokens.moreSuffixes frames (.length e) >>= k) c' o d')
    (hevery : name.text = "every" ∧ rest.head? = some openParen → ∀ c', At tokens low rest d c' →
      Follows tokens low top (tokens.every (frames + 1) e place >>= fun e => tokens.moreSuffixes frames e >>= k) c' o d')
    (hkey : name.text ≠ "length" → ¬(name.text = "every" ∧ rest.head? = some openParen) → ∀ c', At tokens low rest d c' →
      Follows tokens low top ((match e with
        | .field p => tokens.moreSuffixes frames (.field (p.push (.key name.text)))
        | _ => throw ⟨.propertyOfValue, place⟩) >>= k) c' o d') :
    Follows tokens low top (tokens.propertyOf frames e place >>= k) c o d' := by
  rw [Source.propertyOf, bind_assoc]
  refine hat.expectIdentifier (fun l more c hcons _ hat => ?_) fun hnone => absurd hkind (hnone name rfl)
  obtain ⟨rfl, rfl⟩ := List.cons.inj hcons
  by_cases htext : name.text = "length"
  · rw [if_pos htext, bind_assoc]
    exact hlength htext c hat
  rw [if_neg htext, bind_assoc]
  refine hat.check ?_
  by_cases hlambda : name.text = "every" ∧ rest.head? = some openParen
  · rw [if_pos (by simpa using hlambda), bind_assoc]
    exact hevery hlambda c hat
  · rw [if_neg (by simpa using hlambda)]
    exact hkey htext hlambda c hat

/-- `.length` goes one level deeper -/
theorem property_length {place : Nat} {name : Lexeme} (hat : At tokens low (name :: rest) d c)
    (hkind : name.kind = .identifier) (htext : name.text = "length")
    (hf : ∀ c', At tokens low rest d c' →
      Follows tokens low top (enter tokens frames >>= fun _ => tokens.moreSuffixes frames (.length e) >>= k) c' o d') :
    Follows tokens low top (tokens.propertyOf frames e place >>= k) c o d' := by
  refine property_named hat hkind (fun _ => hf) (fun hevery => ?_) fun hne => ?_
  · exact absurd (htext.symm.trans hevery.1) (by decide)
  · exact absurd htext hne

theorem property_every {place : Nat} {name : Lexeme} (hat : At tokens low (name :: rest) d c)
    (hkind : name.kind = .identifier) (htext : name.text = "every") (hopen : rest.head? = some openParen)
    (hf : ∀ c', At tokens low rest d c' →
      Follows tokens low top (tokens.every (frames + 1) e place >>= fun e => tokens.moreSuffixes frames e >>= k) c' o d') :
    Follows tokens low top (tokens.propertyOf frames e place >>= k) c o d' := by
  refine property_named hat hkind (fun hlength => ?_) (fun _ => hf) fun _ hnot => ?_
  · exact absurd (htext.symm.trans hlength) (by decide)
  · exact absurd ⟨htext, hopen⟩ hnot

/-- any other name is a key, which only a path has -/
theorem property_key {place : Nat} {name : Lexeme} (hat : At tokens low (name :: rest) d c)
    (hkind : name.kind = .identifier) (hlength : name.text ≠ "length")
    (hevery : ¬(name.text = "every" ∧ rest.head? = some openParen))
    (hf : ∀ c', At tokens low rest d c' → Follows tokens low top ((match e with
      | .field p => tokens.moreSuffixes frames (.field (p.push (.key name.text)))
      | _ => throw ⟨.propertyOfValue, place⟩) >>= k) c' o d') :
    Follows tokens low top (tokens.propertyOf frames e place >>= k) c o d' := by
  refine property_named hat hkind (fun hyes => ?_) (fun hyes => ?_) fun _ _ => hf
  · exact absurd hyes hlength
  · exact absurd hyes hevery

/-- in the brackets stands a position or a key -/
theorem index_segment {place : Nat} {p : Path} {inner : Lexeme} {s : Segment} (hat : At tokens low (inner :: rest) d c)
    (hs : segment inner = .ok s)
    (hf : ∀ c', At tokens low rest d c' → Follows tokens low top
      (expect tokens closeBracket >>= fun _ => tokens.moreSuffixes frames (.field (p.push s)) >>= k) c' o d') :
    Follows tokens low top (tokens.indexOf frames (.field p) place >>= k) c o d' := by
  rw [Source.indexOf, bind_assoc]
  refine hat.indexSegment (fun l more s' c hcons hs' hat => ?_) (fun l more cause hcons hs' => ?_) fun hnil => ?_
  · obtain ⟨rfl, rfl⟩ := List.cons.inj hcons
    obtain rfl := Except.ok.inj (hs.symm.trans hs')
    rw [bind_assoc]
    exact hf c hat
  · obtain ⟨rfl, rfl⟩ := List.cons.inj hcons
    cases hs.symm.trans hs'
  · cases hnil

/-- Where no path is, only `.length` may follow. The counter is somewhere at or below the level at which it is set back. -/
theorem follows_valueSuffixes {levels d' : Nat} {e : Expr} (hvalue : ∀ p, e ≠ .field p) (hlevels : levels + d' = depthLimit)
    (hat : At tokens low ls d' c) (htop : frames + 1 ≤ top) (hlow : low ≤ depth) (hhigh : depth ≤ depthLimit) :
    Follows tokens low top (do
      let e ← tokens.moreSuffixes frames e
      setDepth frames depth
      return e) c (valueSuffixes levels e ls) depth := by
  fun_induction valueSuffixes levels e ls generalizing c d' with
  | case1 =>
    refine suffix_end hat (by simp) (by simp) ?_
    exact hat.restore (by omega) hlow hhigh
  | case2 =>
    refine suffix_dot hat fun c hat => ?_
    exact property_unnamed hat (by simp) rfl
  | case3 levels e name more hkind =>
    refine suffix_dot hat fun c hat => ?_
    exact property_unnamed hat (by simpa using hkind) rfl
  | case4 e name more hkind hlength =>
    refine suffix_dot hat fun c hat => ?_
    refine property_length hat (Decidable.not_not.1 hkind) hlength fun c hat => ?_
    exact hat.enter (by omega) (fun _ => rfl) fun hlt => absurd hlt (by omega)
  | case5 e name more hkind hlength levels ih =>
    refine suffix_dot hat fun c hat => ?_
    refine property_length hat (Decidable.not_not.1 hkind) hlength fun c hat => ?_
    refine hat.enter (by omega) (fun hge => absurd hge (by omega)) fun _ c hat => ?_
    exact ih (by simp) (by omega) hat
  | case6 levels e name more hkind hlength hevery =>
    refine suffix_dot hat fun c hat => ?_
    refine property_every hat (Decidable.not_not.1 hkind) hevery.1 hevery.2 fun c hat => ?_
    rw [Source.every]
    · rw [bind_assoc]
      exact hat.visit htop fun c hat => Follows.throw_bind hat rfl rfl
    · exact hvalue
  | case7 levels e name more hkind hlength hevery =>
    refine suffix_dot hat fun c hat => ?_
    refine property_key hat (Decidable.not_not.1 hkind) hlength hevery fun c hat => ?_
    cases e with
    | field p => exact absurd rfl (hvalue p)
    | _ => exact Follows.throw_bind hat rfl rfl
  | case8 levels e rest hdot =>
    refine suffix_bracket hat fun c hat => ?_
    rw [Source.indexOf]
    · exact Follows.throw_bind hat rfl rfl
    · exact hvalue
  | case9 levels e l rest hdot hbracket =>
    refine suffix_end hat (by simpa using hdot) (by simpa using hbracket) ?_
    exact hat.restore (by omega) hlow hhigh

section

variable (hexpression : Keeps tokens (span d) tokens.expression d (readers d).nested.run)

include hexpression

/-- A path goes on at its own level; with `.length` or `.every` it is a value. -/
theorem follows_pathSuffixes {levels : Nat} {p : Path} (hlevels : levels + d = depthLimit) (hat : At tokens low ls d c)
    (htop : frames + (span d + 2) ≤ top) :
    Follows tokens low top (do
      let e ← tokens.moreSuffixes frames (.field p)
      setDepth frames d
      return e) c (pathSuffixes levels (readers d).nested p ls) d := by
  have hlow := hat.above
  have hhigh := hat.below
  fun_induction pathSuffixes levels (readers d).nested p ls generalizing c with
  | case1 =>
    refine suffix_end hat (by simp) (by simp) ?_
    exact hat.restore (by omega) hlow hhigh
  | case2 =>
    refine suffix_dot hat fun c hat => ?_
    exact property_unnamed hat (by simp) rfl
  | case3 p name more hkind =>
    refine suffix_dot hat fun c hat => ?_
    exact property_unnamed hat (by simpa using hkind) rfl
  | case4 p name more hkind hlength =>
    refine suffix_dot hat fun c hat => ?_
    refine property_length hat (Decidable.not_not.1 hkind) hlength fun c hat => ?_
    exact hat.enter (by omega) (fun _ => rfl) fun hlt => absurd hlt (by omega)
  | case5 p name more hkind hlength levels =>
    refine suffix_dot hat fun c hat => ?_
    refine property_length hat (Decidable.not_not.1 hkind) hlength fun c hat => ?_
    refine hat.enter (by omega) (fun hge => absurd hge (by omega)) fun _ c hat => ?_
    exact follows_valueSuffixes (by simp) (by omega) hat (by omega) hlow hhigh
  | case6 p name hkind hlength =>
    refine suffix_dot hat fun c hat => ?_
    refine property_key hat (Decidable.not_not.1 hkind) hlength (by simp) fun c hat => ?_
    refine suffix_end hat (by simp) (by simp) ?_
    exact hat.restore (by omega) hlow hhigh
  | case7 p name hkind hlength next body hevery r hlambda =>
    obtain ⟨htext, rfl⟩ := hevery
    refine suffix_dot hat fun c hat => ?_
    refine property_every hat (Decidable.not_not.1 hkind) htext rfl fun c hat => ?_
    exact (follows_every hexpression hat (by omega)).bind_error (by rw [hlambda]) rfl
  | case8 p name hkind hlength next body hevery param e rest hlambda =>
    obtain ⟨htext, rfl⟩ := hevery
    refine suffix_dot hat fun c hat => ?_
    refine property_every hat (Decidable.not_not.1 hkind) htext rfl fun c hat => ?_
    refine (follows_every hexpression hat (by omega)).bind_ok (by rw [hlambda]) fun c hat => ?_
    exact follows_valueSuffixes (by simp) hlevels hat (by omega) hlow hhigh
  | case9 p name hkind hlength next body hevery ih =>
    refine suffix_dot hat fun c hat => ?_
    exact property_key hat (Decidable.not_not.1 hkind) hlength (by simpa using hevery) fun c hat => ih hat
  | case10 p =>
    refine suffix_bracket hat fun c hat => ?_
    rw [Source.indexOf, bind_assoc]
    exact hat.indexSegment (fun _ _ _ _ hcons => by cases hcons) (fun _ _ _ hcons => by cases hcons) fun _ => rfl
  | case11 p inner more cause hs =>
    refine suffix_bracket hat fun c hat => ?_
    rw [Source.indexOf, bind_assoc]
    refine hat.indexSegment (fun l rest s c hcons hs' _ => ?_) (fun l rest cause' hcons hs' => ?_) fun hnil => ?_
    · obtain ⟨rfl, rfl⟩ := List.cons.inj hcons
      cases hs.symm.trans hs'
    · obtain ⟨rfl, rfl⟩ := List.cons.inj hcons
      rw [Except.error.inj (hs.symm.trans hs')]
    · cases hnil
  | case12 p inner s hs =>
    refine suffix_bracket hat fun c hat => ?_
    refine index_segment hat hs fun c hat => ?_
    refine hat.expect (fun rest c hclose _ => by cases hclose) fun r hclose => ?_
    obtain rfl := Except.error.inj hclose
    rfl
  | case13 p inner s hs more hdot ih =>
    refine suffix_bracket hat fun c hat => ?_
    refine index_segment hat hs fun c hat => ?_
    refine hat.expect (fun rest c hclose hat => ?_) fun r hclose => ?_
    · obtain rfl := (List.cons.inj (expect_eq_ok.1 hclose)).2
      exact ih hat
    · cases (expect_eq_ok.2 rfl).symm.trans hclose
  | case14 p inner s hs close more hclose =>
    refine suffix_bracket hat fun c hat => ?_
    refine index_segment hat hs fun c hat => ?_
    refine hat.expect (fun rest c hok _ => ?_) fun r herror => ?_
    · exact absurd (List.cons.inj (expect_eq_ok.1 hok)).1 hclose
    · rw [Reading.expect, if_neg hclose] at herror
      obtain rfl := Except.error.inj herror
      rfl
  | case15 p l rest hdot hbracket =>
    refine suffix_end hat (by simpa using hdot) (by simpa using hbracket) ?_
    exact hat.restore (by omega) hlow hhigh

theorem keeps_suffixed :
    Keeps tokens (span d + 4) tokens.suffixed d (postfixed (depthLimit - d) (readers d).nested) := by
  intro low top frames c ls hat htop
  rw [Source.suffixed]
  refine hat.visit (by omega) fun c hat => ?_
  refine Follows.get ?_
  dsimp only
  rw [hat.counter]
  have hlow := hat.above
  have hhigh := hat.below
  have hlevels : depthLimit - d + d = depthLimit := by omega
  unfold postfixed
  refine (keeps_primary hexpression hat (by omega)).bind (fun e rest c he hat => ?_) fun r he => ?_
  · rw [he]
    cases e with
    | field p => exact follows_pathSuffixes hexpression hlevels hat (by omega)
    | literal | call | array | not | binary | length | every =>
      exact follows_valueSuffixes (by simp) hlevels hat (by omega) hlow hhigh
  · rw [he]

theorem keeps_unary
    (hdeeper : d < depthLimit → Keeps tokens (span (d + 1) + 5) tokens.unary (d + 1) (readers (d + 1)).unary.run) :
    Keeps tokens (span d + 5) tokens.unary d (readers d).unary.run := by
  intro low top frames c ls hat htop
  rw [Source.unary, readers_unary]
  unfold Reading.unary
  refine hat.visit (by omega) fun c hat => ?_
  refine hat.eat (fun rest c hcons hat' => ?_) fun hnext => ?_
  · subst hcons
    dsimp only
    rw [if_pos rfl, deeperUnary]
    refine hat'.enter (by omega) (fun hge => ?_) fun hlt c hat' => ?_
    · rw [if_neg (by omega)]
      rfl
    · have hspan := span_of_lt hlt
      rw [if_pos hlt]
      have hoperand := hdeeper hlt ⟨hat'.left, hat'.counter, Nat.le_refl _, hat'.below⟩
        (show frames + 1 + (span (d + 1) + 5) ≤ top by omega)
      refine (hoperand.lowered hat.above (by omega)).bind (fun e rest c he hat => ?_) fun r he => ?_
      · rw [he]
        exact Follows.pure hat
      · rw [he]
  · have hsuffixed := keeps_suffixed hexpression hat (show frames + 1 + (span d + 4) ≤ top by omega)
    cases ls with
    | nil => exact hsuffixed
    | cons l rest =>
      dsimp only
      rw [if_neg (by simpa using hnext)]
      exact hsuffixed

end

/-! ## Chains -/

/-- the reader of an operand of a chain of comparisons -/
def Rank.operand : Rank → Nat → Reader Expr
  | .equality, d => Grammar.relation d
  | .relation, d => (readers d).unary

/-- the readers of the further operands, each from a deeper level -/
def Rank.row : Rank → Nat → List (Reader Expr)
  | .equality, d => relations (readers d).deeper
  | .relation, d => (readers d).deeper

/-- the reader of a chain of comparisons -/
def Rank.reader (rank : Rank) (d : Nat) : Reader Expr := comparison rank.operator? (rank.operand d) (rank.row d)

/-- how many calls are open at once from a chain of comparisons to an expression -/
def Rank.height : Rank → Nat
  | .equality => 7
  | .relation => 6

theorem Rank.row_of_lt (rank : Rank) (h : d < depthLimit) : rank.row d = rank.operand (d + 1) :: rank.row (d + 1) := by
  cases rank
  · exact relations_deeper h
  · exact readers_deeper h

theorem Rank.row_of_le (rank : Rank) (h : depthLimit ≤ d) : rank.row d = [] := by
  cases rank
  · exact relations_deeper_of_le h
  · exact readers_deeper_of_le h

/-- Each further comparison is one level deeper. -/
theorem follows_moreComparisons {rank : Rank} {left : Expr}
    (hoperand : ∀ x, d' < x → Keeps tokens (span x + (rank.height - 1)) (tokens.comparedOperand rank) x (rank.operand x).run)
    (hat : At tokens low ls d' c) (htop : frames + (span d' + rank.height) ≤ top) (hlow : low ≤ depth)
    (hhigh : depth ≤ depthLimit) :
    Follows tokens low top (do
      let e ← tokens.moreComparisons rank frames left
      setDepth frames depth
      return e) c (comparisons rank.operator? (rank.row d') left ls) depth := by
  induction hlevels : depthLimit - d' using Nat.strongRecOn generalizing d' left ls c with | ind levels ih
  rw [Source.moreComparisons, bind_assoc]
  refine hat.eatOperator (fun l rest op c hcons hop hat' => ?_) fun hnone => ?_
  · subst hcons
    dsimp only
    rw [bind_assoc]
    simp only [comparisons, hop]
    refine hat'.enter (by omega) (fun hge => ?_) fun hlt c hat' => ?_
    · rw [rank.row_of_le hge]
    · have hspan := span_of_lt hlt
      have hrank : 1 ≤ rank.height := by cases rank <;> decide
      rw [rank.row_of_lt hlt, bind_assoc]
      dsimp only
      refine (hoperand (d' + 1) (by omega) hat' (by omega)).bind (fun right rest c hright hat => ?_) fun r hright => ?_
      · rw [hright]
        exact ih _ (by omega) (fun x hx => hoperand x (by omega)) hat (by omega) rfl
      · rw [hright]
  · have hend : comparisons rank.operator? (rank.row d') left ls = .ok (left, ls) := by
      cases ls with
      | nil => simp only [comparisons]
      | cons l rest => simp only [comparisons, hnone l rfl]
    rw [hend]
    exact hat.restore (by omega) hlow hhigh

theorem keeps_compared (rank : Rank)
    (hoperand : ∀ x, d ≤ x → Keeps tokens (span x + (rank.height - 1)) (tokens.comparedOperand rank) x (rank.operand x).run) :
    Keeps tokens (span d + rank.height) (tokens.compared rank) d (rank.reader d).run := by
  intro low top frames c ls hat htop
  have hrank : 1 ≤ rank.height := by cases rank <;> decide
  rw [Source.compared, Rank.reader, comparison]
  refine hat.visit (by omega) fun c hat => ?_
  refine Follows.get ?_
  dsimp only
  rw [hat.counter]
  have hlow := hat.above
  have hhigh := hat.below
  refine (hoperand d (Nat.le_refl d) hat (by omega)).bind (fun left rest c hleft hat => ?_) fun r hleft => ?_
  · rw [hleft]
    exact follows_moreComparisons (fun x hx => hoperand x (by omega)) hat htop hlow hhigh
  · rw [hleft]

/-- the reader of an operand of a chain -/
def Joint.operand : Joint → Nat → Reader Expr
  | .or, d => conjunctions d
  | .and, d => equality d

/-- the reader of a chain -/
def Joint.reader (joint : Joint) (d : Nat) : Reader Expr := chain joint.op joint.lexeme (joint.operand d)

/-- how many calls are open at once from a chain to an expression -/
def Joint.height : Joint → Nat
  | .or => 9
  | .and => 8

theorem follows_joinedOperands (joint : Joint)
    (hoperand : Keeps tokens (span d + (joint.height - 1)) (tokens.joinedOperand joint) d (joint.operand d).run)
    (hat : At tokens low ls d c) (htop : frames + (span d + joint.height) ≤ top) :
    Follows tokens low top (tokens.joinedOperands joint frames) c (separated (joint.operand d) joint.lexeme ls) d := by
  have hjoint : 1 ≤ joint.height := by cases joint <;> decide
  fun_induction separated (joint.operand d) joint.lexeme ls generalizing c with
  | case1 ls r he =>
    rw [Source.joinedOperands]
    exact (hoperand hat (by omega)).bind_error he rfl
  | case2 ls x hx =>
    rw [Source.joinedOperands]
    refine (hoperand hat (by omega)).bind_ok hx fun c hat => ?_
    exact hat.leave (by simp) (Follows.pure hat)
  | case3 ls x rest r hrest hx ih =>
    rw [Source.joinedOperands]
    refine (hoperand hat (by omega)).bind_ok hx fun c hat => ?_
    refine hat.take fun c hat => ?_
    exact (ih hat).bind_error hrest rfl
  | case4 ls x rest xs out hrest hx ih =>
    rw [Source.joinedOperands]
    refine (hoperand hat (by omega)).bind_ok hx fun c hat => ?_
    refine hat.take fun c hat => ?_
    exact (ih hat).bind_ok hrest fun c hat => Follows.pure hat
  | case5 ls x l rest hx hl =>
    rw [Source.joinedOperands]
    refine (hoperand hat (by omega)).bind_ok hx fun c hat => ?_
    exact hat.eat (fun rest' c hcons _ => absurd (List.cons.inj hcons).1 hl) fun _ => Follows.pure hat

theorem keeps_joined (joint : Joint)
    (hoperand : Keeps tokens (span d + (joint.height - 1)) (tokens.joinedOperand joint) d (joint.operand d).run) :
    Keeps tokens (span d + joint.height) (tokens.joined joint) d (joint.reader d).run := by
  intro low top frames c ls hat htop
  rw [Source.joined, Joint.reader, chain]
  refine hat.visit (by omega) fun c hat => ?_
  refine (follows_joinedOperands joint hoperand hat htop).bind (fun operands rest c hread hat => ?_) fun r hread => ?_
  · dsimp only
    rw [hread]
    exact Follows.pure hat
  · dsimp only
    rw [hread]

theorem keeps_implication (hexpression : Keeps tokens (span d) tokens.expression d (readers d).nested.run)
    (hdisjunctions : Keeps tokens (span d + 9) (tokens.joined .or) d (disjunctions d).run) :
    Keeps tokens (span d + 10) tokens.implication d (implications d).run := by
  intro low top frames c ls hat htop
  rw [Source.implication, implications_run]
  refine hat.visit (by omega) fun c hat => ?_
  refine (hdisjunctions hat (by omega)).bind (fun left rest c hleft hat => ?_) fun r hleft => ?_
  · rw [hleft]
    refine hat.eat (fun rest c hcons hat' => ?_) fun hnext => ?_
    · subst hcons
      dsimp only
      rw [if_pos rfl]
      refine (hexpression hat' (by omega)).bind (fun right rest c hright hat => ?_) fun r hright => ?_
      · rw [hright]
        exact Follows.pure hat
      · rw [hright]
    · cases rest with
      | nil => exact Follows.pure hat
      | cons l rest =>
        dsimp only
        rw [if_neg (by simpa using hnext)]
        exact Follows.pure hat
  · rw [hleft]

/-! ## Levels -/

/-- the functions keep to the readers where the counter is `d` -/
structure Kept (tokens : Source) (d : Nat) : Prop where
  expression : Keeps tokens (span d) tokens.expression d (readers d).nested.run
  primary : Keeps tokens (span d + 3) tokens.primary d (Reading.primary (readers d).nested)
  suffixed : Keeps tokens (span d + 4) tokens.suffixed d (postfixed (depthLimit - d) (readers d).nested)
  unary : Keeps tokens (span d + 5) tokens.unary d (readers d).unary.run
  compared : ∀ rank, Keeps tokens (span d + rank.height) (tokens.compared rank) d (rank.reader d).run
  joined : ∀ joint, Keeps tokens (span d + joint.height) (tokens.joined joint) d (joint.reader d).run
  implication : Keeps tokens (span d + 10) tokens.implication d (implications d).run

/-- what holds of the levels below holds of a level -/
theorem kept_of_deeper (hdeeper : ∀ x, d < x → x ≤ depthLimit → Kept tokens x) : Kept tokens d := by
  have hexpression : Keeps tokens (span d) tokens.expression d (readers d).nested.run :=
    keeps_expression fun hlt => (hdeeper (d + 1) (Nat.lt_succ_self d) hlt).implication
  have hunary : Keeps tokens (span d + 5) tokens.unary d (readers d).unary.run :=
    keeps_unary hexpression fun hlt => (hdeeper (d + 1) (Nat.lt_succ_self d) hlt).unary
  -- the operands of a comparison stand at its own level or below
  have hunaries (x : Nat) (hx : d ≤ x) :
      Keeps tokens (span x + 5) (tokens.comparedOperand .relation) x (Rank.relation.operand x).run := by
    intro low top frames c ls hat htop
    rw [Source.comparedOperand]
    rcases Nat.eq_or_lt_of_le hx with rfl | hlt
    · exact hunary hat htop
    · exact (hdeeper x hlt hat.below).unary hat htop
  have hrelation := keeps_compared .relation hunaries
  have hrelations (x : Nat) (hx : d ≤ x) :
      Keeps tokens (span x + 6) (tokens.comparedOperand .equality) x (Rank.equality.operand x).run := by
    intro low top frames c ls hat htop
    rw [Source.comparedOperand]
    rcases Nat.eq_or_lt_of_le hx with rfl | hlt
    · exact hrelation hat htop
    · exact (hdeeper x hlt hat.below).compared .relation hat htop
  have hequality := keeps_compared .equality hrelations
  have hconjunctions : Keeps tokens (span d + 8) (tokens.joined .and) d (Joint.and.reader d).run := by
    refine keeps_joined .and fun low top frames c ls hat htop => ?_
    rw [Source.joinedOperand]
    exact hequality hat htop
  have hdisjunctions : Keeps tokens (span d + 9) (tokens.joined .or) d (Joint.or.reader d).run := by
    refine keeps_joined .or fun low top frames c ls hat htop => ?_
    rw [Source.joinedOperand]
    exact hconjunctions hat htop
  exact {
    expression := hexpression
    primary := keeps_primary hexpression
    suffixed := keeps_suffixed hexpression
    unary := hunary
    compared := fun rank => by
      cases rank
      · exact hequality
      · exact hrelation
    joined := fun joint => by
      cases joint
      · exact hdisjunctions
      · exact hconjunctions
    implication := keeps_implication hexpression hdisjunctions }

/-- **The functions keep to the readers of every level.** -/
theorem kept (tokens : Source) (d : Nat) : Kept tokens d := by
  induction hlevels : depthLimit - d using Nat.strongRecOn generalizing d with | ind levels ih
  exact kept_of_deeper fun x hx hle => ih (depthLimit - x) (by omega) x rfl

end Proviso.Counter
