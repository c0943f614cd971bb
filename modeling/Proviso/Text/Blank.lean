/-
Blanks: the characters that separate lexemes and may stand before the numbers of a date.
-/

namespace Proviso.Text

/-- the white-space characters: tab to carriage return, space, next line, no-break space, and the spaces and line
separators of the general punctuation and ideographic blocks -/
def isBlank (c : Char) : Bool :=
  let n := c.toNat
  (0x09 ≤ n && n ≤ 0x0d) || n == 0x20 || n == 0x85 || n == 0xa0 || n == 0x1680 || (0x2000 ≤ n && n ≤ 0x200a)
    || n == 0x2028 || n == 0x2029 || n == 0x202f || n == 0x205f || n == 0x3000

/-- every ASCII white-space character is a blank -/
theorem isBlank_of_isWhitespace (c : Char) (h : c.isWhitespace = true) : isBlank c = true := by
  simp only [Char.isWhitespace, Bool.or_eq_true, decide_eq_true_eq] at h
  rcases h with ((h | h) | h) | h <;> (subst h; decide)

end Proviso.Text
