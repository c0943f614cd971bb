/-
Lower case of a whole text.

Each character becomes its lower-case form, which is one character except for the capital I with a dot (U+0130): that
one becomes an i and a combining dot. A capital sigma becomes a final sigma at the end of a word and a plain sigma
elsewhere. It ends a word when, passing over ignorable characters, a cased character stands before it and none after.
-/
import Proviso.Text.Casing

namespace Proviso.Text

/-- the lower-case form of one character, whatever stands around it -/
def lowerChar (c : Char) : List Char :=
  if c.toNat = 0x130 then ['i', '\u0307']
  else match lowerRuns.find? fun r => r.first ≤ c.toNat && c.toNat ≤ r.last && (c.toNat - r.first) % r.step == 0 with
    | some r => [Char.ofNat (c.toNat + r.offset).toNat]
    | none => [c]

/-- whether the first character that is not passed over is cased -/
def startsCased (cs : List Char) : Bool :=
  match cs.dropWhile isCaseIgnorable with
  | c :: _ => isCased c
  | [] => false

/-- the lower-case form of the characters after `before`, which holds what precedes them, nearest first -/
def lowerAfter (before : List Char) : List Char → List Char
  | [] => []
  | c :: rest =>
    if c = '\u03a3' then
      (if startsCased before && !startsCased rest then '\u03c2' else '\u03c3') :: lowerAfter (c :: before) rest
    else lowerChar c ++ lowerAfter (c :: before) rest

/-- the lower-case form of a text -/
def lowercase (s : String) : String := String.ofList (lowerAfter [] s.toList)

end Proviso.Text
