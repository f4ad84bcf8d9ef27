import FuzzyLogic.Binary64.Arithmetic
import FuzzyLogic.Fault

/-!
# Number — real numbers as callers give them

A caller gives a double, a whole number or an exact fraction.  Whole numbers and fractions stay
exact among themselves and become doubles when they meet one; a number beyond the doubles then
fails.  Comparisons are of the exact values, also between a double and an exact number.
-/

namespace FuzzyLogic

/-- A real number, or one of the values without a number that doubles have. -/
inductive Number
  | float (value : Binary64)
  | int (value : Int)
  | ratio (value : Rat)
  deriving DecidableEq

namespace Number

/-! ## Conversion to a double -/

/-- The double nearest to `num / den`; infinity stands for what is beyond the doubles. -/
def quotient (num : Int) (den : Nat) : Binary64 :=
  .signed (num < 0) (.nearest (num.natAbs * unitsPerOne) den)

/-- The nearest double, if the number is not beyond the doubles. -/
def toBinary64 : Number → Except Fault Binary64
  | .float x => .ok x
  | .int n =>
    if quotient n 1 = .infinite (n < 0) then .error .integerTooLarge else .ok (quotient n 1)
  | .ratio q =>
    if quotient q.num q.den = .infinite (q.num < 0) then .error .quotientTooLarge
    else .ok (quotient q.num q.den)

theorem toBinary64_float (x : Binary64) : (float x).toBinary64 = .ok x := rfl

/-! ## Comparison -/

/-- A point of the extended line, finite ones as numerator and positive denominator. -/
inductive Point
  | below
  | finite (num : Int) (den : Nat)
  | above
  deriving DecidableEq

/-- Where a number lies, unless it is NaN. -/
def point? : Number → Option Point
  | .float .nan => none
  | .float (.signed s m) =>
    if m.isTop then some (if s then .below else .above)
    else some (.finite (if s then -(m.units : Int) else m.units) unitsPerOne)
  | .int n => some (.finite n 1)
  | .ratio q => some (.finite q.num q.den)

/-- Compares two points. -/
def Point.compare : Point → Point → Ordering
  | .finite a b, .finite c d => Ord.compare (a * d) (c * b)
  | .below, .below | .above, .above => .eq
  | .below, _ | _, .above => .lt
  | .above, _ | _, .below => .gt

/-- Whether two numbers compare in one of some ways; NaN compares in none. -/
def related (ways : Ordering → Bool) (x y : Number) : Bool :=
  match x.point?, y.point? with
  | some p, some q => ways (p.compare q)
  | _, _ => false

/-- Strictly smaller. -/
def lt (x y : Number) : Bool := related (· == .lt) x y

/-- Smaller or equal. -/
def le (x y : Number) : Bool := related (· != .gt) x y

/-- Numerically equal. -/
def equals (x y : Number) : Bool := related (· == .eq) x y

/-- The smaller of two; the first unless the second is strictly smaller. -/
def min (x y : Number) : Number := if y.lt x then y else x

/-- The larger of two; the first unless the second is strictly larger. -/
def max (x y : Number) : Number := if x.lt y then y else x

/-! ## Arithmetic -/

/-- An exact number as a fraction. -/
def asRatio? : Number → Option Rat
  | .float _ => none
  | .int n => some n
  | .ratio q => some q

/-- Exact on exact numbers, else on the doubles. -/
def combine (onInt : Int → Int → Int) (onRat : Rat → Rat → Rat)
    (onFloat : Binary64 → Binary64 → Binary64) : Number → Number → Except Fault Number
  | .float x, .float y => .ok (.float (onFloat x y))
  | .int a, .int b => .ok (.int (onInt a b))
  | x, y =>
    match x.asRatio?, y.asRatio? with
    | some p, some q => .ok (.ratio (onRat p q))
    | _, _ => do return .float (onFloat (← x.toBinary64) (← y.toBinary64))

/-- The sum. -/
def add : Number → Number → Except Fault Number := combine (· + ·) (· + ·) (· + ·)

/-- The difference. -/
def sub : Number → Number → Except Fault Number := combine (· - ·) (· - ·) (· - ·)

/-- The product. -/
def mul : Number → Number → Except Fault Number := combine (· * ·) (· * ·) (· * ·)

/-- Numerically zero. -/
def isZero (x : Number) : Bool := x.equals (.int 0)

/-- The quotient.  Nothing is divided by zero; whole numbers have a double as quotient. -/
def div : Number → Number → Except Fault Number
  | .float x, .float y =>
    if y.equals .zero then .error .divisionByZero else .ok (.float (x / y))
  | .int a, .int b =>
    if b = 0 then .error .divisionByZero
    else
      let m := Magnitude.nearest (a.natAbs * unitsPerOne) b.natAbs
      if m.isTop then .error .quotientTooLarge
      else .ok (.float (.signed (decide (a < 0) != decide (b < 0)) m))
  | x, y =>
    match x.asRatio?, y.asRatio? with
    | some p, some q => if q = 0 then .error .divisionByZero else .ok (.ratio (p / q))
    | _, _ => do
      let a ← x.toBinary64
      let b ← y.toBinary64
      if b.equals .zero then .error .divisionByZero else .ok (.float (a / b))

/-! ## Text -/

/-- How a message shows a number: doubles with a fraction or exponent, whole numbers without. -/
def shown : Number → String
  | .float x => x.exactText
  | .int n => toString n
  | .ratio q => "Fraction(" ++ toString q.num ++ ", " ++ toString q.den ++ ")"

/-- How many digits a whole number may be written with. -/
def digitLimit : Nat := 4300

/-- Refuses a whole number of too many digits. -/
def checkWhole (n : Nat) : Except Fault Unit :=
  if n < Nat.pow 10 digitLimit then .ok () else .error (.tooManyDigits digitLimit)

/-- Refuses an exact number that is to be written with too many digits. -/
def checkDigits : Number → Except Fault Unit
  | .float _ => .ok ()
  | .int n => checkWhole n.natAbs
  | .ratio q => do
    checkWhole q.num.natAbs
    checkWhole q.den

/-- The canonical text of a number as a degree. -/
def plainText : Number → String
  | .float x => x.plainText
  | .int n => (quotient n 1).plainText
  | .ratio q => (quotient q.num q.den).plainText

/-- The kind of a number, as messages name it. -/
def typeName : Number → String
  | .float _ => "float"
  | .int _ => "int"
  | .ratio _ => "Fraction"

/-- The bytes a number takes: a double a word after the header, a whole number four bytes for
every thirty bits. -/
def size : Number → Nat
  | .float _ => 24
  | .int n => 24 + 4 * Nat.max 1 ((n.natAbs.log2 + 30) / 30)
  | .ratio _ => 48

end Number

end FuzzyLogic
