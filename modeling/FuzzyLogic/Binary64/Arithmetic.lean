import FuzzyLogic.Binary64.Round

/-!
# Binary64/Arithmetic — sum, difference, product and quotient, each rounded once

Every operation is the exact result on the values, rounded by `Magnitude.nearest`.  What is left
are the conventions for results without a value: signs of zero, infinities and NaN.
-/

namespace FuzzyLogic

namespace Magnitude

/-- Is infinity. -/
def isTop (m : Magnitude) : Bool := m.val == topRank

end Magnitude

namespace Binary64

open Magnitude (nearest)

/-- The opposite sign. -/
def neg : Binary64 → Binary64
  | .nan => .nan
  | .signed s m => .signed (!s) m

/-- The sum.  Opposite infinities have none; opposite equal values give positive zero. -/
def add : Binary64 → Binary64 → Binary64
  | .signed s a, .signed t b =>
    if a.isTop then if b.isTop && s != t then .nan else .signed s a
    else if b.isTop then .signed t b
    else if s = t then .signed s (nearest (a.units + b.units) 1)
    else if b.units < a.units then .signed s (nearest (a.units - b.units) 1)
    else if a.units < b.units then .signed t (nearest (b.units - a.units) 1)
    else zero
  | _, _ => .nan

/-- The difference: the sum with the opposite. -/
def sub (x y : Binary64) : Binary64 := add x y.neg

/-- The product.  Zero times infinity has none. -/
def mul : Binary64 → Binary64 → Binary64
  | .signed s a, .signed t b =>
    if a.isTop then if b = .zero then .nan else infinite (s != t)
    else if b.isTop then if a = .zero then .nan else infinite (s != t)
    else .signed (s != t) (nearest (a.units * b.units) unitsPerOne)
  | _, _ => .nan

/-- The quotient.  Zero by zero and infinity by infinity have none. -/
def div : Binary64 → Binary64 → Binary64
  | .signed s a, .signed t b =>
    if a.isTop then if b.isTop then .nan else infinite (s != t)
    else if b.isTop then .signed (s != t) .zero
    else if b = .zero then if a = .zero then .nan else infinite (s != t)
    else .signed (s != t) (nearest (a.units * unitsPerOne) b.units)
  | _, _ => .nan

instance : Neg Binary64 := ⟨neg⟩
instance : Add Binary64 := ⟨add⟩
instance : Sub Binary64 := ⟨sub⟩
instance : Mul Binary64 := ⟨mul⟩
instance : Div Binary64 := ⟨div⟩

theorem add_def (x y : Binary64) : x + y = add x y := rfl

theorem sub_def (x y : Binary64) : x - y = add x (-y) := rfl

theorem mul_def (x y : Binary64) : x * y = mul x y := rfl

theorem div_def (x y : Binary64) : x / y = div x y := rfl

end Binary64

end FuzzyLogic
