/-
Doubles of integers of any size.

An integer of more than 64 binary digits is narrowed to its 64 leading digits before it is rounded. What is cut off can
break a tie between two doubles, so a trace of it is kept: the last digit that is kept is made one. The trace is looked
for limb by limb. A limb is 64 digits, counted from the lowest, and the leading limb holds the `width` digits that are
left; of every other limb only the lowest `width` digits are looked at. So a tie is broken by those digits alone, and
any integer that is not close to a tie goes to the nearest double.

`ofWide_eq_ofInt`: up to 64 digits nothing is cut off, and the nearest double is taken.
-/
import Proviso.Double

namespace Proviso.Double

/-- how many limbs of 64 binary digits stand below the leading one -/
def lowerLimbs (n : Nat) : Nat := n.log2 / 64

/-- how many binary digits the leading limb has, from 1 to 64 -/
def leadingWidth (n : Nat) : Nat := n.log2 % 64 + 1

/-- whether a limb below the leading one has a one among its lowest `leadingWidth` digits -/
def leavesTrace (n : Nat) : Bool :=
  (List.range (lowerLimbs n)).any fun i => n / 2 ^ (64 * i) % 2 ^ leadingWidth n ≠ 0

/-- The 64 leading digits, with zeros for those that are cut off; the last digit is one when these leave a trace. -/
def narrowed (n : Nat) : Nat :=
  let cut := n.log2 - 63
  let kept := n / 2 ^ cut
  (if leavesTrace n then kept ||| 1 else kept) * 2 ^ cut

/-- the double that an integer of any size stands for: the one nearest to its narrowed form -/
def ofWide (n : Int) : Double := ofUnits (decide (n < 0)) (narrowed n.natAbs * one) 1

theorem narrowed_of_lt (n : Nat) (h : n < 2 ^ 64) : narrowed n = n := by
  have hlog : n.log2 < 64 := by
    by_cases hn : n = 0
    · subst hn; decide
    · exact (Nat.log2_lt hn).2 h
  have hlimbs : lowerLimbs n = 0 := Nat.div_eq_of_lt hlog
  have hcut : n.log2 - 63 = 0 := by omega
  simp [narrowed, leavesTrace, hlimbs, hcut]

/-- an integer of at most 64 digits goes to the nearest double -/
theorem ofWide_eq_ofInt (n : Int) (h : n.natAbs < 2 ^ 64) : ofWide n = ofInt n := by
  rw [ofWide, ofInt, narrowed_of_lt _ h]

end Proviso.Double
