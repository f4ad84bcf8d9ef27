import FuzzyLogic.Binary64.Basic
import FuzzyLogic.Decimal.Basic
import FuzzyLogic.Text.Blank
import FuzzyLogic.Text.Digit

/-!
# Decimal/Reader — reading numbers

A number is written in decimal or exponent notation, as `inf`, `infinity` or `nan` in any case, with
an optional sign, with white space around it, with single underscores between digits, and with the
decimal digits of any script.  `Binary64.read?` gives the nearest double.
-/

namespace FuzzyLogic

namespace Decimal

/-- Whether a character is an ASCII digit. -/
def isDigit (c : Char) : Bool := '0' ≤ c && c ≤ '9'

/-- The number written by digits before and after a point, times a power of ten. -/
def ofParts (whole fraction : List Char) (exponent : Int) : Decimal :=
  ⟨ofDigitList (whole ++ fraction), exponent - fraction.length⟩

/-- Splits off a sign; true stands for minus. -/
def splitSign : List Char → Bool × List Char
  | '-' :: rest => (true, rest)
  | '+' :: rest => (false, rest)
  | cs => (false, cs)

/-- Reads the exponent that may follow the digits. -/
def readExponent? : List Char → Option Int
  | [] => some 0
  | c :: rest =>
    let (minus, ds) := splitSign rest
    if (c = 'e' || c = 'E') && !ds.isEmpty && ds.all isDigit then
      some (if minus then -(ofDigitList ds : Int) else ofDigitList ds)
    else none

/-- Reads an unsigned numeral with optional point and exponent. -/
def read? (cs : List Char) : Option Decimal :=
  let whole := cs.takeWhile isDigit
  let (fraction, rest) := match cs.dropWhile isDigit with
    | '.' :: rest => (rest.takeWhile isDigit, rest.dropWhile isDigit)
    | rest => ([], rest)
  if whole.isEmpty && fraction.isEmpty then none
  else (readExponent? rest).map (ofParts whole fraction)

end Decimal

namespace Binary64

/-- The ASCII blanks that may surround a number. -/
def isAsciiBlank (c : Char) : Bool := (9 ≤ c.toNat && c.toNat ≤ 13) || c == ' '

/-- The ASCII form of a character of a number: digits of other scripts become ASCII digits, other
white space the space; `?` stands for what no number holds. -/
def toAscii (c : Char) : Char :=
  if c.toNat < 0x7F then c
  else if Text.isBlank c then ' '
  else match Text.decimalValue? c with
    | some n => Nat.digitChar n
    | none => '?'

/-- Removes underscores, each of which must stand between two digits. -/
def dropUnderscores? (previous : Char) : List Char → Option (List Char)
  | [] => some []
  | '_' :: c :: rest =>
    if Decimal.isDigit previous && Decimal.isDigit c then
      (dropUnderscores? c rest).map (c :: ·)
    else none
  | c :: rest => if c = '_' then none else (dropUnderscores? c rest).map (c :: ·)

/-- The ASCII lower case of a letter. -/
def lowerAscii (c : Char) : Char :=
  if 'A' ≤ c && c ≤ 'Z' then Char.ofNat (c.toNat + 32) else c

/-- Reads a number without blanks and underscores. -/
def readBare? (cs : List Char) : Option Binary64 :=
  let (minus, rest) := Decimal.splitSign cs
  let word := String.ofList (rest.map lowerAscii)
  if word = "inf" || word = "infinity" then some (infinite minus)
  else if word = "nan" then some .nan
  else (Decimal.read? rest).map fun d => .signed minus d.toMagnitude

/-- Reads a number. -/
def read? (s : String) : Option Binary64 :=
  let ascii := s.toList.map toAscii
  let bare := ((ascii.dropWhile isAsciiBlank).reverse.dropWhile isAsciiBlank).reverse
  (dropUnderscores? ' ' bare).bind readBare?

end Binary64

end FuzzyLogic
