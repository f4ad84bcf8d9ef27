/-!
# Binary64/Basic — doubles as signed ranks

List the nonnegative doubles in increasing order: `0, 2⁻¹⁰⁷⁴, 2 · 2⁻¹⁰⁷⁴, …, ∞`.  A `Magnitude` is
a place in this list, its **rank**; the rank is also the bit pattern without the sign, so nothing
is lost.  A double is a sign and a magnitude, or the one NaN.

* `units r` — the exact value at rank `r`, counted in steps of `2⁻¹⁰⁷⁴`; infinity counts as `2¹⁰²⁴`,
  which is where rounding sends what overflows.
* `Binary64.order` — the signed rank; doubles compare as their signed ranks do, and both zeros
  have signed rank `0`.
-/

namespace FuzzyLogic

/-! ## Magnitudes -/

/-- How many ranks a binade holds: `2⁵²`. -/
def binade : Nat := 1 <<< 52

/-- The rank of infinity: `2046` full binades and the subnormals lie below it. -/
def topRank : Nat := 2047 * binade

/-- A nonnegative double, infinity included, by its rank. -/
abbrev Magnitude := Fin (topRank + 1)

/-- How many steps of `2⁻¹⁰⁷⁴` make the value `1`. -/
def unitsPerOne : Nat := 1 <<< 1074

/-- The value at a rank, in steps of `2⁻¹⁰⁷⁴`: below the first binade the rank itself, then the
step doubles from binade to binade. -/
def units (rank : Nat) : Nat :=
  if rank < binade then rank else (binade + rank % binade) <<< (rank / binade - 1)

namespace Magnitude

/-- The zero magnitude. -/
def zero : Magnitude := ⟨0, by decide⟩

/-- The magnitude of `1`. -/
def one : Magnitude := ⟨1023 * binade, by decide⟩

/-- The magnitude of `2`. -/
def two : Magnitude := ⟨1024 * binade, by decide⟩

/-- The infinite magnitude. -/
def top : Magnitude := ⟨topRank, by decide⟩

/-- The exact value, in steps of `2⁻¹⁰⁷⁴`. -/
def units (m : Magnitude) : Nat := FuzzyLogic.units m.val

theorem units_zero : zero.units = 0 := rfl

theorem units_one : one.units = unitsPerOne := by decide +kernel

end Magnitude

/-! ## Signed doubles -/

/-- A double: NaN, or a sign and a magnitude.  The two zeros differ in their sign only. -/
inductive Binary64
  | nan
  | signed (negative : Bool) (magnitude : Magnitude)
  deriving DecidableEq

namespace Binary64

instance : Inhabited Binary64 := ⟨.signed false .zero⟩

/-- Positive zero. -/
def zero : Binary64 := .signed false .zero

/-- The double `1`. -/
def one : Binary64 := .signed false .one

/-- The double `2`. -/
def two : Binary64 := .signed false .two

/-- Infinity of a sign. -/
def infinite (negative : Bool) : Binary64 := .signed negative .top

/-- The signed rank by which doubles compare; NaN has none. -/
def order : Binary64 → Option Int
  | .nan => none
  | .signed false m => some m.val
  | .signed true m => some (-m.val)

/-- Holds of two doubles whose signed ranks stand in a relation; never of NaN. -/
def related (r : Int → Int → Bool) (x y : Binary64) : Bool :=
  match x.order, y.order with
  | some a, some b => r a b
  | _, _ => false

/-- Strictly smaller. -/
def lt (x y : Binary64) : Bool := related (fun a b => decide (a < b)) x y

/-- Smaller or equal. -/
def le (x y : Binary64) : Bool := related (fun a b => decide (a ≤ b)) x y

/-- Numerically equal: the zeros are, NaN is not even to itself. -/
def equals (x y : Binary64) : Bool := related (fun a b => decide (a = b)) x y

/-- NaN holds no number. -/
def isNaN (x : Binary64) : Bool := x.order.isNone

theorem le_iff_of_order {x y : Binary64} {a b : Int} (hx : x.order = some a)
    (hy : y.order = some b) : x.le y = true ↔ a ≤ b := by
  simp [le, related, hx, hy]

theorem lt_iff_of_order {x y : Binary64} {a b : Int} (hx : x.order = some a)
    (hy : y.order = some b) : x.lt y = true ↔ a < b := by
  simp [lt, related, hx, hy]

/-- The smaller of two; the first unless the second is strictly smaller. -/
def min (x y : Binary64) : Binary64 := if y.lt x then y else x

/-- The larger of two; the first unless the second is strictly larger. -/
def max (x y : Binary64) : Binary64 := if x.lt y then y else x

/-- Lies between zero and one, ends included. -/
def isDegree (x : Binary64) : Bool := zero.le x && x.le one

end Binary64

end FuzzyLogic
