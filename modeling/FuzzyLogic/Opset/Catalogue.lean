import FuzzyLogic.Opset.Basic

/-!
# Opset/Catalogue — the Yager and Hamacher families

Five operation sets at commonly used parameters, all with the standard negation `1 - x`.

Hamacher 0 divides zero by zero where both degrees are `0` (conjunction) or `1` (disjunction); there
it takes the limits `0` and `1`.  Quotients can round a hair past a bound, so what is divided is
clamped into `[0, 1]`.
-/

namespace FuzzyLogic

namespace Catalogue

/-- Zero as a double. -/
def zero : Number := .float .zero

/-- One as a double. -/
def one : Number := .float .one

/-- Two as a double. -/
def two : Number := .float .two

/-- The nearest number of `[0, 1]`. -/
def clamp (x : Number) : Number := (x.max zero).min one

/-- The standard negation `1 - x`. -/
def complement (x : Number) : Except Fault Number := one.sub x

namespace Yager1

/-- `min (a + b) 1` -/
def disjunction (a b : Number) : Except Fault Number := do
  return (← a.add b).min one

/-- `max (a + b) 1 - 1` -/
def conjunction (a b : Number) : Except Fault Number := do
  ((← a.add b).max one).sub one

end Yager1

namespace YagerInf

/-- `max a b` -/
def disjunction (a b : Number) : Except Fault Number := .ok (a.max b)

/-- `min a b` -/
def conjunction (a b : Number) : Except Fault Number := .ok (a.min b)

end YagerInf

namespace Hamacher0

/-- `(a + b - 2ab) / (1 - ab)`, and `1` where that is zero by zero. -/
def disjunction (a b : Number) : Except Fault Number := do
  let denominator ← one.sub (← a.mul b)
  if denominator.equals zero then return one
  let numerator ← (← a.add b).sub (← (← two.mul a).mul b)
  return clamp (← numerator.div denominator)

/-- `ab / (a + b - ab)`, and `0` where that is zero by zero. -/
def conjunction (a b : Number) : Except Fault Number := do
  let denominator ← (← a.add b).sub (← a.mul b)
  if denominator.equals zero then return zero
  return clamp (← (← a.mul b).div denominator)

end Hamacher0

namespace Hamacher1

/-- `a + b - ab` -/
def disjunction (a b : Number) : Except Fault Number := do
  return clamp (← (← a.add b).sub (← a.mul b))

/-- `ab` -/
def conjunction (a b : Number) : Except Fault Number := a.mul b

end Hamacher1

namespace Hamacher2

/-- `(a + b) / (1 + ab)` -/
def disjunction (a b : Number) : Except Fault Number := do
  return clamp (← (← a.add b).div (← one.add (← a.mul b)))

/-- `ab / (2 - a - b + ab)` -/
def conjunction (a b : Number) : Except Fault Number := do
  let product ← a.mul b
  return clamp (← product.div (← (← (← two.sub a).sub b).add (← a.mul b)))

end Hamacher2

/-- A set of the catalogue. -/
def entry (id : Nat) (className name : String) (differentiable : Bool) (doc : String)
    (formulas : List String) (disjunction conjunction : BinaryHook) : Opset where
  id := id
  className := className
  home := "fuzzy_systems.opset.catalogue"
  name := name
  differentiable := differentiable
  formulas := formulas
  doc := some doc
  negationHook := .function complement
  disjunctionHook := .function disjunction
  conjunctionHook := .function conjunction

/-- The Yager set with parameter `1`. -/
def yager1 : Opset :=
  entry 1 "Yager1" "yager1" false "Yager fuzzy operation set with w = 1."
    ["~x = 1 - x", "a | b = min(a + b, 1)", "a & b = max(a + b, 1) - 1"]
    Yager1.disjunction Yager1.conjunction

/-- The limit of the Yager sets for large parameters. -/
def yagerInf : Opset :=
  entry 2 "YagerInf" "yagerinf" false "Yager fuzzy operation set with w -> inf."
    ["~x = 1 - x", "a | b = max(a, b)", "a & b = min(a, b)"]
    YagerInf.disjunction YagerInf.conjunction

/-- The Hamacher set with parameter `0`. -/
def hamacher0 : Opset :=
  entry 3 "Hamacher0" "hamacher0" false "Hamacher fuzzy operation set with gamma = 0."
    ["~x = 1 - x", "a | b = (a + b - 2ab) / (1 - ab)", "a & b = ab / (a + b - ab)"]
    Hamacher0.disjunction Hamacher0.conjunction

/-- The Hamacher set with parameter `1`: probabilistic sum and product. -/
def hamacher1 : Opset :=
  entry 4 "Hamacher1" "hamacher1" true "Hamacher fuzzy operation set with gamma = 1."
    ["~x = 1 - x", "a | b = a + b - ab", "a & b = ab"]
    Hamacher1.disjunction Hamacher1.conjunction

/-- The Hamacher set with parameter `2`. -/
def hamacher2 : Opset :=
  entry 5 "Hamacher2" "hamacher2" true "Hamacher fuzzy operation set with gamma = 2."
    ["~x = 1 - x", "a | b = (a + b) / (1 + ab)", "a & b = ab / (2 - a - b + ab)"]
    Hamacher2.disjunction Hamacher2.conjunction

/-- The whole catalogue. -/
def all : List Opset := [yager1, yagerInf, hamacher0, hamacher1, hamacher2]

theorem mem_all {o : Opset} :
    o ∈ all ↔ o = yager1 ∨ o = yagerInf ∨ o = hamacher0 ∨ o = hamacher1 ∨ o = hamacher2 := by
  simp only [all, List.mem_cons, List.not_mem_nil, or_false]

theorem isConcrete_of_mem {o : Opset} (h : o ∈ all) : o.isConcrete := by
  rcases mem_all.mp h with rfl | rfl | rfl | rfl | rfl <;> rfl

end Catalogue

end FuzzyLogic
