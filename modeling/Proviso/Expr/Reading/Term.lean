/-
Reading terms: what stands alone, with its suffixes.

A literal, a field, a call, a list in brackets or an expression in parentheses stands alone. A field path grows by keys
and positions, and `.length` or `.every` ends it; any other term takes `.length` only. The reader `nested` reads the
expressions inside brackets, parentheses and lambdas, one level deeper, and `levels` bounds the chain of `.length`.
-/
import Proviso.Expr.Reading.Reader

namespace Proviso.Reading

/-! ## What stands alone -/

/-- the literal that a number denotes: a double when it has a dot, and an exact integer otherwise -/
def number? (text : String) : Option Literal :=
  if text.toList.contains '.' then (Decimal.double? text.toList).map .float
  else (Decimal.integer? text.toList).map .int

/-- the literals that are written as words -/
def word? (text : String) : Option Literal :=
  if text = "true" then some (.bool true)
  else if text = "false" then some (.bool false)
  else if text = "null" then some .null
  else if text = "undefined" then some .undefined
  else none

/-- a word, a field, or a call of a builtin; `ls` starts with the identifier `name` and `rest` follows it -/
def named (nested : Reader Expr) (name : String) (ls rest : List Lexeme) : Outcome Expr :=
  match word? name with
  | some l => .ok (.literal l, rest)
  | none =>
    match rest with
    | [] => .ok (.field ⟨name, []⟩, [])
    | l :: more =>
      if l = openParen then
        match Builtin.ofName? name with
        | none => refuse (.unknownFunction name) ls
        | some f =>
          match listUntil closeParen nested more with
          | .error e => .error e
          | .ok (args, rest) =>
            if f.accepts args.length then .ok (.call f args, rest) else refuse (.wrongArity f args.length) ls
      else .ok (.field ⟨name, []⟩, l :: more)

/-- a literal, a field, a call, a list in brackets, or an expression in parentheses -/
def primary (nested : Reader Expr) (ls : List Lexeme) : Outcome Expr :=
  match ls with
  | [] => refuse .unexpectedEnd []
  | l :: rest =>
    match l.kind with
    | .number =>
      match number? l.text with
      | some n => .ok (.literal n, rest)
      | none => refuse (.invalidNumber l.text) ls
    | .string => .ok (.literal (.string l.text), rest)
    | .identifier => named nested l.text ls rest
    | _ =>
      if l = openParen then
        match nested.run rest with
        | .error e => .error e
        | .ok (e, rest) =>
          match expect closeParen rest with
          | .error e => .error e
          | .ok rest => .ok (e, rest)
      else if l = openBracket then
        match listUntil closeBracket nested rest with
        | .error e => .error e
        | .ok (items, rest) => .ok (.array items, rest)
      else refuse (.unexpected l.text) ls

/-! ## Suffixes -/

/-- the segment that a lexeme in brackets denotes: a position or a quoted key -/
def segment (l : Lexeme) : Except ParseError.Cause Segment :=
  match l.kind with
  | .number =>
    match Decimal.index? l.text.toList with
    | some i => .ok (.index i)
    | none => .error (.invalidIndex l.text)
  | .string => .ok (.key l.text)
  | _ => .error (.unexpectedInIndex l.text)

/-- The suffixes of an expression that is no path: only `.length`, as often as there are levels left. -/
def valueSuffixes (levels : Nat) (e : Expr) (ls : List Lexeme) : Outcome Expr :=
  match ls with
  | [] => .ok (e, [])
  | l :: rest =>
    if l = dot then
      match rest with
      | [] => refuse .noPropertyName []
      | name :: more =>
        if name.kind ≠ .identifier then refuse .noPropertyName (name :: more)
        else if name.text = "length" then
          match levels with
          | 0 => refuse .tooDeep more
          | levels + 1 => valueSuffixes levels (.length e) more
        else if name.text = "every" ∧ more.head? = some openParen then refuse .everyOfValue ls
        else refuse .propertyOfValue ls
    else if l = openBracket then refuse .indexOfValue ls
    else .ok (e, l :: rest)

/-- The lambda of `.every` after its opening parenthesis: a parameter, an arrow, the body, a closing parenthesis. -/
def lambda (nested : Reader Expr) (ls : List Lexeme) : Outcome (String × Expr) :=
  match ls with
  | [] => refuse .noParameter []
  | param :: rest =>
    if param.kind ≠ .identifier then refuse .noParameter ls
    else
      match expect arrow rest with
      | .error e => .error e
      | .ok rest =>
        match nested.run rest with
        | .error e => .error e
        | .ok (body, rest) =>
          match expect closeParen rest with
          | .error e => .error e
          | .ok rest => .ok ((param.text, body), rest)

/-- The suffixes of a path: keys and positions make it longer, `.length` and `.every` end it. -/
def pathSuffixes (levels : Nat) (nested : Reader Expr) (p : Path) (ls : List Lexeme) : Outcome Expr :=
  match ls with
  | [] => .ok (.field p, [])
  | l :: rest =>
    if l = dot then
      match rest with
      | [] => refuse .noPropertyName []
      | name :: more =>
        if name.kind ≠ .identifier then refuse .noPropertyName (name :: more)
        else if name.text = "length" then
          match levels with
          | 0 => refuse .tooDeep more
          | levels + 1 => valueSuffixes levels (.length (.field p)) more
        else
          match more with
          | [] => .ok (.field (p.push (.key name.text)), [])
          | next :: body =>
            if name.text = "every" ∧ next = openParen then
              match lambda nested body with
              | .error e => .error e
              | .ok ((param, e), rest) => valueSuffixes levels (.every p param e) rest
            else pathSuffixes levels nested (p.push (.key name.text)) (next :: body)
    else if l = openBracket then
      match rest with
      | [] => refuse .unexpectedEnd []
      | inner :: more =>
        match segment inner with
        | .error cause => refuse cause (inner :: more)
        | .ok s =>
          match more with
          | [] => refuse (.expectedBeforeEnd closeBracket.text) []
          | close :: rest =>
            if close = closeBracket then pathSuffixes levels nested (p.push s) rest
            else refuse (.expected closeBracket.text close.text) (close :: rest)
    else .ok (.field p, l :: rest)

/-- what stands alone with its suffixes -/
def postfixed (levels : Nat) (nested : Reader Expr) (ls : List Lexeme) : Outcome Expr :=
  match primary nested ls with
  | .error e => .error e
  | .ok (.field p, rest) => pathSuffixes levels nested p rest
  | .ok (e, rest) => valueSuffixes levels e rest

/-! ## Terms take a lexeme at least -/

theorem named_length (nested : Reader Expr) (name : String) (ls rest : List Lexeme) (e : Expr) (out : List Lexeme)
    (h : named nested name ls rest = .ok (e, out)) : out.length ≤ rest.length := by
  unfold named at h
  split at h
  · simp_all
  · split at h
    · simp_all
    · split at h
      · split at h
        · simp [refuse] at h
        · split at h
          · simp at h
          · rename_i hl
            have := listUntil_shortens _ _ _ _ _ hl
            split at h
            · simp_all
              omega
            · simp [refuse] at h
      · simp only [Except.ok.injEq, Prod.mk.injEq] at h
        simp [← h.2]

theorem primary_shortens (nested : Reader Expr) (ls : List Lexeme) (e : Expr) (out : List Lexeme)
    (h : primary nested ls = .ok (e, out)) : out.length < ls.length := by
  unfold primary at h
  split at h
  · simp [refuse] at h
  · rename_i l rest
    split at h
    · split at h
      · simp_all
      · simp [refuse] at h
    · simp_all
    · have := named_length _ _ _ _ _ _ h
      simp only [List.length_cons]
      omega
    · split at h
      · split at h
        · simp at h
        · rename_i hn
          have := nested.shortens _ _ _ hn
          split at h
          · simp at h
          · rename_i he
            rw [expect_eq_ok] at he
            simp_all
            omega
      · split at h
        · split at h
          · simp at h
          · rename_i hl
            have := listUntil_shortens _ _ _ _ _ hl
            simp_all
            omega
        · simp [refuse] at h

theorem valueSuffixes_length (levels : Nat) (e : Expr) (ls : List Lexeme) :
    ∀ e' out, valueSuffixes levels e ls = .ok (e', out) → out.length ≤ ls.length := by
  fun_induction valueSuffixes levels e ls <;> intro e' out h <;> simp_all [refuse]
  grind

theorem lambda_shortens (nested : Reader Expr) (ls : List Lexeme) (r : String × Expr) (out : List Lexeme)
    (h : lambda nested ls = .ok (r, out)) : out.length < ls.length := by
  unfold lambda at h
  split at h
  · simp [refuse] at h
  · split at h
    · simp [refuse] at h
    · split at h
      · simp at h
      · rename_i ha
        split at h
        · simp at h
        · rename_i hn
          have := nested.shortens _ _ _ hn
          split at h
          · simp at h
          · rename_i hc
            rw [expect_eq_ok] at ha hc
            simp_all
            omega

theorem pathSuffixes_length (levels : Nat) (nested : Reader Expr) (p : Path) (ls : List Lexeme) :
    ∀ e out, pathSuffixes levels nested p ls = .ok (e, out) → out.length ≤ ls.length := by
  fun_induction pathSuffixes levels nested p ls <;> (intro e out h; simp_all [refuse]) <;>
    grind [→ valueSuffixes_length, → lambda_shortens]

theorem postfixed_shortens (levels : Nat) (nested : Reader Expr) (ls : List Lexeme) (e : Expr) (out : List Lexeme)
    (h : postfixed levels nested ls = .ok (e, out)) : out.length < ls.length := by
  unfold postfixed at h
  split at h
  · simp at h
  · rename_i hp
    have := primary_shortens _ _ _ _ hp
    have := pathSuffixes_length _ _ _ _ _ _ h
    omega
  · rename_i hp
    have := primary_shortens _ _ _ _ hp
    have := valueSuffixes_length _ _ _ _ _ h
    omega

end Proviso.Reading
