/-
Bound names are fields of a larger record.

Names bound one after the other hide each other and the fields of the record just as fields that are set one after the
other do (`resolve_bindAll`). Only the earlier state of the record is read from the record itself, so a name bound to it
would make a difference; any other may as well be set there (`eval_bindAll`). `every_iff_set` draws the conclusion for
`.every`.
-/
import Proviso.Proofs.Eval.Agree

namespace Proviso

namespace Record

/-- the record with some names set, one after the other -/
def setAll (r : Record) (bs : List (String × Json)) : Record := bs.foldl (fun r b => r.set b.1 b.2) r

theorem setAll_cons (r : Record) (b : String × Json) (bs : List (String × Json)) :
    r.setAll (b :: bs) = (r.set b.1 b.2).setAll bs := rfl

theorem setAll_concat (r : Record) (bs : List (String × Json)) (name : String) (v : Json) :
    r.setAll (bs ++ [(name, v)]) = (r.setAll bs).set name v := by
  simp [setAll, List.foldl_append]

/-- what has been set comes before what was there -/
theorem get?_setAll (r : Record) (bs : List (String × Json)) (key : String) :
    (r.setAll bs).get? key = ((setAll [] bs).get? key).or (r.get? key) := by
  induction bs generalizing r with
  | nil => simp [setAll, get?_nil]
  | cons b bs ih =>
    rw [setAll_cons, setAll_cons, ih (r.set b.1 b.2), ih (set [] b.1 b.2), Option.or_assoc]
    congr 1
    rw [get?_set, get?_set, get?_nil]
    split <;> simp

theorem get?_setAll_of_ne (r : Record) (bs : List (String × Json)) (key : String) (h : ∀ b ∈ bs, b.1 ≠ key) :
    (r.setAll bs).get? key = r.get? key := by
  induction bs generalizing r with
  | nil => rfl
  | cons b bs ih =>
    rw [setAll_cons, ih _ fun c hc => h c (List.mem_cons_of_mem _ hc), get?_set,
      if_neg (h b List.mem_cons_self)]

end Record

namespace Env

/-- the environment with some names bound, the last one innermost -/
def bindAll (env : Env) (bs : List (String × Json)) : Env := bs.foldl (fun env b => env.bind b.1 b.2) env

theorem bindAll_eq (env : Env) (bs : List (String × Json)) :
    env.bindAll bs = { env with bindings := env.bindings.setAll bs } := by
  induction bs generalizing env with
  | nil => rfl
  | cons b bs ih => exact ih (env.bind b.1 b.2)

theorem bindAll_concat (env : Env) (bs : List (String × Json)) (name : String) (v : Json) :
    env.bindAll (bs ++ [(name, v)]) = (env.bindAll bs).bind name v := by
  simp [bindAll, List.foldl_append]

variable (fields : Record) (options : Options) (clock : Instant) (bs : List (String × Json))

/-- a path has the value that it has where the names are fields -/
theorem resolve_bindAll (p : Path) :
    (bindAll { context := .object fields, options, clock } bs).resolve p =
      (Json.object (fields.setAll bs)).resolve p := by
  rw [bindAll_eq]
  simp only [resolve, Json.resolve, Json.get?, fields.get?_setAll bs]
  cases Record.get? (Record.setAll [] bs) p.root <;> rfl

theorem previous?_setAll (h : ∀ b ∈ bs, b.1 ≠ previousKey) :
    (Json.object (fields.setAll bs)).previous? = (Json.object fields).previous? := by
  simp only [Json.previous?, Json.get?, fields.get?_setAll_of_ne bs previousKey h]

/-- **Bound names may as well be fields.** An expression has the same operand under names bound to values and in the
record with those names set, as long as none of them is the key of the earlier state. -/
theorem eval_bindAll (h : ∀ b ∈ bs, b.1 ≠ previousKey) (e : Expr) :
    e.eval (bindAll { context := .object fields, options, clock } bs) =
      e.eval { context := .object (fields.setAll bs), options, clock } := by
  refine e.eval_congr ⟨by rw [bindAll_eq], by rw [bindAll_eq], fun _ => ?_, fun p _ => ?_⟩
  · rw [bindAll_eq]
    exact (previous?_setAll fields bs h).symm
  · exact resolve_bindAll fields options clock bs p

/-- `.every` holds when the path leads to an array and the body holds for each element, with the parameter as a field -/
theorem every_iff_set (h : ∀ b ∈ bs, b.1 ≠ previousKey) (p : Path) {param : String} (hparam : param ≠ previousKey)
    (body : Expr) :
    (Expr.every p param body).eval (bindAll { context := .object fields, options, clock } bs) = .bool true ↔
      ∃ items, (Json.object (fields.setAll bs)).resolve p = some (.array items) ∧
        ∀ v ∈ items, body.holds { context := .object ((fields.setAll bs).set param v), options, clock } = true := by
  have hbody : ∀ v, body.eval ((bindAll { context := .object fields, options, clock } bs).bind param v) =
      body.eval { context := .object ((fields.setAll bs).set param v), options, clock } := by
    intro v
    rw [← bindAll_concat, ← Record.setAll_concat]
    refine eval_bindAll fields options clock _ (fun b hb => ?_) body
    rcases List.mem_append.1 hb with hb | hb
    · exact h b hb
    · rw [List.mem_singleton.1 hb]
      exact hparam
  simp only [Expr.eval, resolve_bindAll, hbody, Expr.holds]
  split
  · next items hitems => simp [hitems, Operand.bool]
  · next hne =>
    constructor
    · intro hf
      simp [Operand.bool] at hf
    · rintro ⟨items, hitems, -⟩
      exact absurd hitems (hne items)

/-- **Lambda parameters extend the record.** Under names bound to values an expression has the operand that it has, with
nothing bound, in the record with those names set one after the other; and `.every` holds exactly when its path leads to
an array there and its body holds in the record with the parameter set to each element. -/
theorem bound_names_are_fields (h : ∀ b ∈ bs, b.1 ≠ previousKey) :
    (∀ e : Expr, e.eval (bindAll { context := .object fields, options, clock } bs) =
      e.eval { context := .object (fields.setAll bs), options, clock }) ∧
    ∀ (p : Path) (param : String) (body : Expr), param ≠ previousKey →
      ((Expr.every p param body).eval (bindAll { context := .object fields, options, clock } bs) = .bool true ↔
        ∃ items, (Json.object (fields.setAll bs)).resolve p = some (.array items) ∧
          ∀ v ∈ items, body.holds { context := .object ((fields.setAll bs).set param v), options, clock } = true) :=
  ⟨eval_bindAll fields options clock bs h, fun p _ body hparam => every_iff_set fields options clock bs h p hparam body⟩

/-- the inner of two equal names counts, and the parameter of `.every` hides both -/
theorem hidden_names_are_fields :
    let fields : Record := [("item", .null), ("rows", .array [.bool true, .string "a"])]
    let bs : List (String × Json) := [("item", .bool true), ("item", .bool false)]
    (∀ b ∈ bs, b.1 ≠ previousKey) ∧
      (Expr.field ⟨"item", []⟩).eval (bindAll { context := .object fields, options := {}, clock := ⟨0, 0, 0⟩ } bs) =
        .bool false ∧
      (Expr.every ⟨"rows", []⟩ "item" (.field ⟨"item", []⟩)).eval
        (bindAll { context := .object fields, options := {}, clock := ⟨0, 0, 0⟩ } bs) = .bool true := by
  intro fields bs
  have h : ∀ b ∈ bs, b.1 ≠ previousKey := by decide
  obtain ⟨heval, hevery⟩ := bound_names_are_fields fields {} ⟨0, 0, 0⟩ bs h
  refine ⟨h, heval _, (hevery _ _ _ (by decide)).2 ⟨[.bool true, .string "a"], rfl, fun v hv => ?_⟩⟩
  simp only [List.mem_cons, List.not_mem_nil, or_false] at hv
  rcases hv with rfl | rfl
  · rfl
  · rfl

end Env

end Proviso
