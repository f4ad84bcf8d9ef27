/-!
# Text/Lines — where a line ends

Line ends are line feed, carriage return, both together, the other vertical controls, the three
ASCII separators above the unit separator, next line, and the line and paragraph separators.
-/

namespace FuzzyLogic.Text

/-- Whether a character ends a line. -/
def isLineEnd (c : Char) : Bool :=
  let n := c.toNat
  (10 ≤ n && n ≤ 13) || (0x1C ≤ n && n ≤ 0x1E) || n == 0x85 || n == 0x2028 || n == 0x2029

/-- What stands before the first line end. -/
def firstLine (s : String) : String := String.ofList (s.toList.takeWhile (!isLineEnd ·))

end FuzzyLogic.Text
