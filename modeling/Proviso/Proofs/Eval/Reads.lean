/-
Which fields of a record a constraint reads.

`Expr.Reads e key` says that an evaluation of `e` may look at the field `key` of the record: `e` mentions it outside
every `.every` that binds it, or it holds the earlier state and `e` looks back. No other field can be told from the
operand (`eval_of_reads`), so a field that is not read can be added, changed or removed and the verdict stands
(`unread_fields_do_not_matter`).
-/
import Proviso.Proofs.Eval.Agree

namespace Proviso

namespace Record

/-- the record without the fields of one name -/
def without (r : Record) (name : String) : Record := r.filter fun field => field.1 ≠ name

theorem get?_without_of_ne (r : Record) {name key : String} (h : name ≠ key) :
    (r.without name).get? key = r.get? key := by
  induction r with
  | nil => rfl
  | cons field r ih =>
    obtain ⟨other, v⟩ := field
    by_cases hother : other = name
    · have hkey : other ≠ key := fun he => h (hother.symm.trans he)
      have hskip : without ((other, v) :: r) name = without r name := by simp [without, hother]
      rw [hskip, ih, get?, if_neg hkey]
    · have hkeep : without ((other, v) :: r) name = (other, v) :: without r name := by simp [without, hother]
      rw [hkeep, get?, get?, ih]

end Record

namespace Expr

/-- an evaluation of the expression may look at this field of the record -/
def Reads (e : Expr) (key : String) : Prop := e.Mentions key ∨ key = previousKey ∧ e.LooksBack

variable (options : Options) (clock : Instant)

/-- two records that agree on the fields that an expression reads are the same to it -/
theorem agree_of_reads (e : Expr) {fields fields' : Record}
    (h : ∀ key, e.Reads key → fields.get? key = fields'.get? key) :
    Env.Agree (fun name => e.Mentions name) e.LooksBack { context := .object fields, options, clock }
      { context := .object fields', options, clock } where
  options := rfl
  clock := rfl
  previous := by
    intro hback
    simp only [Json.previous?, Json.get?, h previousKey (.inr ⟨rfl, hback⟩)]
  resolve := by
    intro p hp
    simp only [Env.resolve, Record.get?_nil, Json.resolve, Json.get?, h p.root (.inl hp)]

/-- **The operand depends on what is read alone.** -/
theorem eval_of_reads (e : Expr) {fields fields' : Record}
    (h : ∀ key, e.Reads key → fields.get? key = fields'.get? key) :
    e.eval { context := .object fields, options, clock } = e.eval { context := .object fields', options, clock } :=
  eval_congr e (agree_of_reads options clock e h)

/-- an unread field is not among those that a change of it must leave alone -/
theorem ne_of_reads {e : Expr} {unread key : String} (hu : ¬ e.Reads unread) (hk : e.Reads key) : unread ≠ key := by
  rintro rfl
  exact hu hk

/-- **Unread fields do not matter.** Records that agree on the fields an expression reads give it the same operand. So a
field that it does not read can have any value, be added or be removed, and the expression holds just as before. -/
theorem unread_fields_do_not_matter (e : Expr) (fields : Record) :
    (∀ fields' : Record, (∀ key, e.Reads key → fields.get? key = fields'.get? key) →
      e.eval { context := .object fields, options, clock } = e.eval { context := .object fields', options, clock }) ∧
    ∀ key, ¬ e.Reads key →
      (∀ v, e.holds { context := .object (fields.set key v), options, clock } =
        e.holds { context := .object fields, options, clock }) ∧
      e.holds { context := .object (fields.without key), options, clock } =
        e.holds { context := .object fields, options, clock } := by
  refine ⟨fun fields' h => eval_of_reads options clock e h, fun unread hu => ⟨fun v => ?_, ?_⟩⟩
  · have h : ∀ key, e.Reads key → (fields.set unread v).get? key = fields.get? key := by
      intro key hk
      rw [Record.get?_set, if_neg (ne_of_reads hu hk)]
    rw [holds, holds, eval_of_reads options clock e h]
  · have h : ∀ key, e.Reads key → (fields.without unread).get? key = fields.get? key := by
      intro key hk
      exact fields.get?_without_of_ne (ne_of_reads hu hk)
    rw [holds, holds, eval_of_reads options clock e h]

/-- a field of the name that `.every` binds is not read, while the earlier state is -/
theorem field_under_parameter_unread :
    let e : Expr := .every ⟨"rows", []⟩ "x"
      (.binary .and (.field ⟨"x", [.key "ok"]⟩) (.call .changed [.field ⟨"limit", []⟩]))
    let fields : Record :=
      [("rows", .array [.object [("ok", .bool true)]]), ("limit", .bool true),
        (previousKey, .object [("limit", .bool false)]), ("x", .null)]
    e.Reads previousKey ∧ ¬ e.Reads "x" ∧
      e.holds { context := .object (fields.set "x" (.bool false)), options := {}, clock := ⟨0, 0, 0⟩ } = true ∧
      e.holds { context := .object (fields.without "x"), options := {}, clock := ⟨0, 0, 0⟩ } = true := by
  intro e fields
  have hback : e.Reads previousKey := .inr ⟨rfl, .inr (.inl rfl)⟩
  have hx : ¬ e.Reads "x" := by simp [e, Reads, Mentions, MentionsIn, previousKey]
  have hnow : e.holds { context := .object fields, options := {}, clock := ⟨0, 0, 0⟩ } = true := rfl
  obtain ⟨hset, hwithout⟩ := (unread_fields_do_not_matter {} ⟨0, 0, 0⟩ e fields).2 "x" hx
  exact ⟨hback, hx, (hset _).trans hnow, hwithout.trans hnow⟩

end Expr

end Proviso
