import FuzzyLogic.Expr.Label
import FuzzyLogic.Membership

/-!
# Expr/Basic — expression trees

A `Node` is a leaf with a degree, a negation, a conjunction or disjunction, or an alternative: one
of two arms, chosen when the tree was built.  `Node.conjoin` and `Node.disjoin` refuse operands of
two operation sets, so that every tree built by them has one operation set, that of all its leaves.
-/

namespace FuzzyLogic

/-- An expression tree. -/
inductive Node
  | atom (value : Membership)
  | labeled (value : Membership) (label : Label)
  | not (child : Node)
  | and (left right : Node)
  | or (left right : Node)
  | alternative (side : Side) (branch : Node)

namespace Node

/-- The operation set of a tree: that of its leftmost leaf. -/
def opset : Node → Opset
  | atom value | labeled value _ => value.opset
  | not child => child.opset
  | and left _ | or left _ => left.opset
  | alternative _ branch => branch.opset

/-- The kind of a node, as messages name it. -/
def typeName : Node → String
  | atom _ => "Atom"
  | labeled _ _ => "Labeled"
  | not _ => "Not"
  | and _ _ => "And"
  | or _ _ => "Or"
  | alternative _ _ => "Alternative"

/-- The degrees at the leaves, from left to right. -/
def leaves : Node → List Membership
  | atom value | labeled value _ => [value]
  | not child => child.leaves
  | and left right | or left right => left.leaves ++ right.leaves
  | alternative _ branch => branch.leaves

/-! ## Combinators -/

/-- Refuses operands of two operation sets. -/
def checkSame (node : String) (o p : Opset) : Except Fault Unit :=
  if o.same p then .ok () else .error (.opsetMismatch node o.className p.className)

/-- A leaf with a degree made of a number. -/
def ofDegree (raw : Number) (o : Opset) : Except Fault Node :=
  (Membership.of raw o).map .atom

/-- The negation of a tree. -/
def negate (x : Node) : Node := not x

/-- The conjunction of two trees of one operation set. -/
def conjoin (x y : Node) : Except Fault Node := do
  checkSame "And" x.opset y.opset
  return and x y

/-- The disjunction of two trees of one operation set. -/
def disjoin (x y : Node) : Except Fault Node := do
  checkSame "Or" x.opset y.opset
  return or x y

/-- Puts a label on a plain leaf. -/
def withLabel (x : Node) (label : Label) : Except Fault Node :=
  match x with
  | atom value => .ok (labeled value label)
  | x => .error (.notLabelable x.typeName)

theorem conjoin_eq_ok_iff {x y z : Node} :
    x.conjoin y = .ok z ↔ x.opset.same y.opset = true ∧ z = and x y := by
  unfold conjoin checkSame
  cases h : x.opset.same y.opset <;> simp [bind, Except.bind, pure, Except.pure, eq_comm]

theorem disjoin_eq_ok_iff {x y z : Node} :
    x.disjoin y = .ok z ↔ x.opset.same y.opset = true ∧ z = or x y := by
  unfold disjoin checkSame
  cases h : x.opset.same y.opset <;> simp [bind, Except.bind, pure, Except.pure, eq_comm]

/-! ## Evaluation -/

/-- The degree of a tree, computed from the leaves up; both operands are always evaluated. -/
def evaluate : Node → Except Fault Membership
  | atom value | labeled value _ => .ok value
  | not child => do
    let value ← child.evaluate
    child.opset.negation value
  | and left right => do
    let lhs ← left.evaluate
    let rhs ← right.evaluate
    left.opset.conjunction lhs rhs
  | or left right => do
    let lhs ← left.evaluate
    let rhs ← right.evaluate
    left.opset.disjunction lhs rhs
  | alternative _ branch => branch.evaluate

/-! ## Text -/

/-- The fully parenthesised text; a label stands in place of its degree. -/
def render : Node → String
  | atom value => value.text
  | labeled _ label => label.display
  | not child => "!" ++ child.render
  | and left right => "(" ++ left.render ++ " & " ++ right.render ++ ")"
  | or left right => "(" ++ left.render ++ " | " ++ right.render ++ ")"
  | alternative _ branch => branch.render

/-- The shape of a tree, spelt out. -/
def shown : Node → String
  | atom value => "Atom(" ++ value.text ++ ")"
  | labeled value label => "Labeled(" ++ value.text ++ ", " ++ label.shown ++ ")"
  | not child => "Not(" ++ child.shown ++ ")"
  | and left right => "And(" ++ left.shown ++ ", " ++ right.shown ++ ")"
  | or left right => "Or(" ++ left.shown ++ ", " ++ right.shown ++ ")"
  | alternative side branch => "Alternative(" ++ side.label ++ ", " ++ branch.shown ++ ")"

/-! ## Footprint -/

/-- The bytes of data at the leaves: every degree, and every label that owns data. -/
def footprint : Node → Nat
  | atom value => value.raw.size
  | labeled value label => value.raw.size + label.payload
  | not child => child.footprint
  | and left right | or left right => left.footprint + right.footprint
  | alternative _ branch => branch.footprint

end Node

end FuzzyLogic
