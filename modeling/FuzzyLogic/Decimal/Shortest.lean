import FuzzyLogic.Decimal.Basic

/-!
# Decimal/Shortest — the fewest digits that read back

The reals nearest to a double form an interval around it, from halfway to the double below up to
halfway to the double above; the ends belong to it when the rank is even.  The grid of multiples of
`10 ^ k` is tried from coarse to fine, and the first grid with a point in the interval gives the
digits.  Of the two grid points around the double the one in the interval is taken, of two the
nearer, of two equally near the even one.

No finer grid than `10⁻¹⁰⁷⁴` is ever needed: there every double is a grid point itself.
-/

namespace FuzzyLogic

namespace Magnitude

/-- Halfway to the double below, in half steps. -/
def lowerEnd (m : Magnitude) : Nat := FuzzyLogic.units (m.val - 1) + m.units

/-- Halfway to the double above, in half steps. -/
def upperEnd (m : Magnitude) : Nat := m.units + FuzzyLogic.units (m.val + 1)

/-- Whether `n · 10 ^ k` lies in the interval of reals nearest to a double. -/
def attracts (m : Magnitude) (n : Nat) (k : Int) : Bool :=
  let point := n * Decimal.raising k * (2 * unitsPerOne)
  let low := m.lowerEnd * Decimal.lowering k
  let high := m.upperEnd * Decimal.lowering k
  if m.val % 2 = 0 then low ≤ point && point ≤ high else low < point && point < high

/-- The point of the grid `10 ^ k` that stands for a double, if one lies in its interval. -/
def gridPoint? (m : Magnitude) (k : Int) : Option Nat :=
  let num := 2 * m.units * Decimal.lowering k
  let den := 2 * unitsPerOne * Decimal.raising k
  let below := num / den
  let rest := num % den
  if m.attracts below k then
    if m.attracts (below + 1) k then
      some (if 2 * rest < den then below
        else if den < 2 * rest then below + 1
        else below + below % 2)
    else some below
  else if m.attracts (below + 1) k then some (below + 1)
  else none

/-- The exact decimal expansion: every step of `2⁻¹⁰⁷⁴` is `5¹⁰⁷⁴ · 10⁻¹⁰⁷⁴`. -/
def exactDecimal (m : Magnitude) : Decimal := ⟨m.units * Nat.pow 5 1074, -1074⟩

/-- The first grid point on grids that get finer by one digit at a time. -/
def searchDecimal (m : Magnitude) : (grids : Nat) → (coarsest : Int) → Decimal
  | 0, _ => m.exactDecimal
  | grids + 1, k =>
    match m.gridPoint? k with
    | some n => ⟨n, k⟩
    | none => m.searchDecimal grids (k - 1)

/-- The place of the leading digit of a positive double: `10 ^ (p - 1) ≤ value < 10 ^ p`. -/
def leadingPlace (m : Magnitude) : Int :=
  (Decimal.digitList (m.units * Nat.pow 10 324 / unitsPerOne)).length - 324

/-- The decimal of fewest digits that reads back as a finite double, the nearest of these. -/
def shortest (m : Magnitude) : Decimal :=
  (m.searchDecimal 800 m.leadingPlace).trimmed

end Magnitude

end FuzzyLogic
