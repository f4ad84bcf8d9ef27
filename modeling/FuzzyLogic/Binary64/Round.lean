import FuzzyLogic.Binary64.Basic

/-!
# Binary64/Round — the double nearest to a quotient

`Magnitude.nearest num den` is the magnitude closest to the exact value `num / den` steps of
`2⁻¹⁰⁷⁴`; of two equally close the one of even rank.  All rounding of the library, in arithmetic
and in reading numbers, is this function.

Below `2⁵³` steps every whole number of steps is a double, so only the fraction is rounded.
Above, the binade of the value fixes a coarser step, and the rank of the largest double below is
the number of coarse steps plus the ranks of one binade for every doubling of the step.  The next
rank is the next double also across a binade, so one addition rounds up everywhere, up to infinity.
-/

namespace FuzzyLogic

namespace Magnitude

/-- How often the step doubles at a whole number of units. -/
def doublings (whole : Nat) : Nat := whole.log2 - 52

/-- The rank nearest to `num / den` units, were there no largest one. -/
def nearestRank (num den : Nat) : Nat :=
  let shift := doublings (num / den)
  let step := den <<< shift
  let below := shift * binade + num / step
  let twice := 2 * (num % step)
  if twice < step then below
  else if step < twice then below + 1
  else below + below % 2

/-- The magnitude nearest to `num / den` units; from halfway between the largest finite double
and `2¹⁰²⁴` on it is infinite. -/
def nearest (num den : Nat) : Magnitude :=
  ⟨min (nearestRank num den) topRank, by omega⟩

/-- The magnitude nearest to a natural number. -/
def ofNat (n : Nat) : Magnitude := nearest (n * unitsPerOne) 1

end Magnitude

end FuzzyLogic
