import FuzzyLogic.Binary64.Basic
import FuzzyLogic.Decimal.Shortest

/-!
# Decimal/Layout — two written forms of a double

Both write the shortest digits that read back.  `plainText` never uses an exponent and drops a
zero fraction: the text of degrees and of canonical expressions.  `exactText` keeps a fraction on
whole numbers and leaves the positional form below `10⁻⁴` and from `10¹⁶` on: the text of numbers
in messages and reports.
-/

namespace FuzzyLogic

/-- What a written form decides apart from the digits. -/
structure NumberLayout where
  /-- Written after a number without fraction digits. -/
  wholeEnding : String
  /-- Whether a number whose leading digit stands at `10 ^ e` is written without exponent. -/
  isPositional : Int → Bool

namespace NumberLayout

/-- Always positional, no fraction on whole numbers. -/
def plain : NumberLayout := ⟨"", fun _ => true⟩

/-- Positional from `10⁻⁴` up to below `10¹⁶`, always with a fraction there. -/
def exact : NumberLayout := ⟨".0", fun e => decide (-4 ≤ e) && decide (e < 16)⟩

end NumberLayout

namespace Decimal

/-- A run of zeros. -/
def zeros (n : Nat) : String := String.ofList (List.replicate n '0')

/-- The digits with a point where it belongs. -/
def positional (wholeEnding : String) (d : Decimal) : String :=
  let ds := digitList d.digits
  let place := d.leading
  if 0 ≤ d.exponent then String.ofList ds ++ zeros d.exponent.toNat ++ wholeEnding
  else if 0 < place then
    String.ofList (ds.take place.toNat) ++ "." ++ String.ofList (ds.drop place.toNat)
  else "0." ++ zeros (-place).toNat ++ String.ofList ds

/-- One digit before the point, and an exponent with a sign and at least two digits. -/
def scientific (d : Decimal) : String :=
  let ds := digitList d.digits
  let e := d.leading - 1
  let mantissa := String.ofList (ds.take 1) ++
    (if ds.length ≤ 1 then "" else "." ++ String.ofList (ds.drop 1))
  let size := digitList e.natAbs
  mantissa ++ (if e < 0 then "e-" else "e+") ++
    (if size.length < 2 then "0" else "") ++ String.ofList size

/-- A positive decimal in a layout. -/
def text (layout : NumberLayout) (d : Decimal) : String :=
  if layout.isPositional (d.leading - 1) then d.positional layout.wholeEnding else d.scientific

end Decimal

namespace Magnitude

/-- A magnitude in a layout. -/
def text (layout : NumberLayout) (m : Magnitude) : String :=
  if m = .zero then "0" ++ layout.wholeEnding
  else if m = .top then "inf"
  else m.shortest.text layout

end Magnitude

namespace Binary64

/-- A double in a layout. -/
def text (layout : NumberLayout) : Binary64 → String
  | .nan => "nan"
  | .signed s m => (if s then "-" else "") ++ m.text layout

/-- The canonical text of a degree: `0.1`, `1`, `0.0000001`. -/
def plainText (x : Binary64) : String := x.text .plain

/-- The text of a number in messages and reports: `0.1`, `1.0`, `1e-07`. -/
def exactText (x : Binary64) : String := x.text .exact

end Binary64

end FuzzyLogic
