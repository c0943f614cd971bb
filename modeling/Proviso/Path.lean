/-
Field paths: an identifier and the keys and positions that follow it, such as `links[0].scope`.

`Json.walk` follows segments into a value; a missing key, a position out of range and a step into a scalar all give
`none`. A path is resolved from the top of an object, and a dotted name is a path whose segments are all keys.
-/
import Proviso.Json

namespace Proviso

/-- one step into a value: by key into an object, by position into an array -/
inductive Segment where
  | key (name : String)
  | index (i : UInt64)
  deriving DecidableEq, Repr

/-- a field path: the field of the record it starts at, and the steps from there -/
structure Path where
  root : String
  rest : List Segment
  deriving DecidableEq, Repr

/-- one step into a value -/
def Json.step (v : Json) : Segment → Option Json
  | .key name => v.get? name
  | .index i => v.array?.bind (·[i.toNat]?)

/-- the value at the end of some steps -/
def Json.walk : Json → List Segment → Option Json
  | v, [] => some v
  | v, s :: rest => (v.step s).bind (·.walk rest)

/-- the value that a path names inside an object -/
def Json.resolve (v : Json) (p : Path) : Option Json := (v.get? p.root).bind (·.walk p.rest)

/-- the parts of a dotted name: what stands between the dots, of which there is always one part more -/
def splitDots : List Char → List (List Char)
  | [] => [[]]
  | c :: cs =>
    if c = '.' then [] :: splitDots cs
    else match splitDots cs with
      | [] => [[c]]
      | part :: parts => (c :: part) :: parts

/-- the value that a dotted name such as `usage.cost` names inside a record -/
def Json.lookupDotted (v : Json) (name : String) : Option Json :=
  (splitDots name.toList).foldlM (fun v part => v.get? (String.ofList part)) v

namespace Path

/-- the path that a dotted name denotes -/
def ofDotted (name : String) : Path :=
  match splitDots name.toList with
  | [] => ⟨"", []⟩
  | root :: parts => ⟨String.ofList root, parts.map fun part => .key (String.ofList part)⟩

/-- the path one step further -/
def push (p : Path) (s : Segment) : Path := { p with rest := p.rest ++ [s] }

/-- a segment as text: a key after a dot, a position in brackets -/
def segmentText : Segment → String
  | .key name => "." ++ name
  | .index i => "[" ++ toString i.toNat ++ "]"

/-- the path as text -/
def text (p : Path) : String := p.rest.foldl (fun acc s => acc ++ segmentText s) p.root

end Path

/-- the key of a record that holds its earlier state -/
def previousKey : String := "_previous"

/-- the earlier state of a record, when it carries one as an object -/
def Json.previous? (v : Json) : Option Json :=
  match v.get? previousKey with
  | some (.object fields) => some (.object fields)
  | _ => none

theorem Json.walk_append (v : Json) (p q : List Segment) :
    v.walk (p ++ q) = (v.walk p).bind (·.walk q) := by
  induction p generalizing v with
  | nil => rfl
  | cons s p ih => cases h : v.step s <;> simp [walk, h, ih]

theorem splitDots_ne_nil (cs : List Char) : splitDots cs ≠ [] := by
  cases cs with
  | nil => simp [splitDots]
  | cons c cs => simp only [splitDots]; split <;> (try split) <;> simp

end Proviso
