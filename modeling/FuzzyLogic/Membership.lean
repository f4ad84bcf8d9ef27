import FuzzyLogic.Opset.Basic

/-!
# Membership — degrees of an operation set

A `Membership` is a raw number and the operation set it belongs to.  `Membership.of` validates,
`Membership.of?` gives nothing instead of refusing a number outside `[0, 1]`, `Membership.fit` moves
it to the nearer end.  The operations of an operation set wrap what their hooks return unchecked: a
set of operations is responsible for staying within `[0, 1]`.
-/

namespace FuzzyLogic

/-- A degree under an operation set. -/
structure Membership where
  raw : Number
  opset : Opset

namespace Membership

/-! ## Construction -/

/-- The degree nearest to a number that lies in `[0, 1]`. -/
def of (raw : Number) (o : Opset) : Except Fault Membership := do
  let x ← raw.toBinary64
  if x.isDegree then return ⟨.float x, o⟩
  throw (.outOfRange x o.className)

/-- Whether a number, taken exactly, lies in `[0, 1]`. -/
def inRange (raw : Number) : Bool := (Number.float .zero).le raw && raw.le (.float .one)

/-- The degree of a number in `[0, 1]`, and nothing of any other. -/
def of? (raw : Number) (o : Opset) : Except Fault (Option Membership) :=
  if inRange raw then (of raw o).map some else .ok none

/-- The double nearest to a number, moved to the nearer end of `[0, 1]`. -/
def clamped (x : Binary64) : Binary64 := (x.max .zero).min .one

/-- The degree nearest to any number but NaN. -/
def fit (raw : Number) (o : Opset) : Except Fault Membership := do
  let x ← raw.toBinary64
  if x.isNaN then throw (.notANumber o.className)
  of (.float (clamped x)) o

/-! ## Comparison -/

/-- Compares the degrees of two memberships of one operation set. -/
def compare (way : Number → Number → Bool) (m n : Membership) : Except Fault Bool :=
  if m.opset.same n.opset then .ok (way m.raw n.raw)
  else .error (.opsetMismatch "compare" m.opset.className n.opset.className)

/-- Compares a degree with the double nearest to a number. -/
def compareNumber (way : Number → Number → Bool) (m : Membership) (x : Number) :
    Except Fault Bool := do
  return way m.raw (.float (← x.toBinary64))

/-- Equal: the same operation set, and numerically equal degrees. -/
def equals (m n : Membership) : Bool := m.raw.equals n.raw && m.opset.same n.opset

/-! ## Text -/

/-- The canonical text of the degree. -/
def text (m : Membership) : String := m.raw.plainText

/-- Refuses a degree that is too large to be written as doubles are. -/
def checkWritten (m : Membership) : Except Fault Unit := discard m.raw.toBinary64

/-- The degree and the operation set. -/
def shown (m : Membership) : String :=
  "Membership(" ++ m.raw.shown ++ ", " ++ m.opset.className ++ ")"

end Membership

/-! ## Operations -/

namespace Opset

/-- Refuses an operand of another operation set. -/
def checkOperand (o : Opset) (operation : String) (p : Opset) : Except Fault Unit :=
  if p.same o then .ok () else .error (.opsetMismatch operation o.className p.className)

/-- The negation of a membership. -/
def negation (o : Opset) (m : Membership) : Except Fault Membership := do
  o.checkOperand "negation" m.opset
  return ⟨← o.rawNot m.raw, o⟩

/-- The disjunction of two memberships. -/
def disjunction (o : Opset) (m n : Membership) : Except Fault Membership := do
  o.checkOperand "disjunction" m.opset
  o.checkOperand "disjunction" n.opset
  return ⟨← o.rawOr m.raw n.raw, o⟩

/-- The conjunction of two memberships. -/
def conjunction (o : Opset) (m n : Membership) : Except Fault Membership := do
  o.checkOperand "conjunction" m.opset
  o.checkOperand "conjunction" n.opset
  return ⟨← o.rawAnd m.raw n.raw, o⟩

end Opset

namespace Membership

/-- The negation under the own operation set. -/
def negate (m : Membership) : Except Fault Membership := m.opset.negation m

/-- The disjunction under the left operand's operation set. -/
def disjoin (m n : Membership) : Except Fault Membership := m.opset.disjunction m n

/-- The conjunction under the left operand's operation set. -/
def conjoin (m n : Membership) : Except Fault Membership := m.opset.conjunction m n

end Membership

/-! ## Markers -/

/-- What a marker is applied to: a fuzzy value, or a number to be validated. -/
inductive MarkerOperand
  | value (m : Membership)
  | degree (raw : Number)

namespace Opset

/-- The membership a marker sees. -/
def operand (o : Opset) : MarkerOperand → Except Fault Membership
  | .value m => .ok m
  | .degree raw => do Membership.of (.float (← raw.toBinary64)) o

/-- Negation of what a marker is applied to. -/
def markNegation (o : Opset) (x : MarkerOperand) : Except Fault Membership := do
  o.negation (← o.operand x)

/-- Disjunction of what a marker is applied to. -/
def markDisjunction (o : Opset) (x y : MarkerOperand) : Except Fault Membership := do
  let m ← o.operand x
  let n ← o.operand y
  o.disjunction m n

/-- Conjunction of what a marker is applied to. -/
def markConjunction (o : Opset) (x y : MarkerOperand) : Except Fault Membership := do
  let m ← o.operand x
  let n ← o.operand y
  o.conjunction m n

end Opset

end FuzzyLogic
