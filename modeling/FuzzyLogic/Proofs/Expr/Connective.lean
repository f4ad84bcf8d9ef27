import FuzzyLogic.Proofs.Expr.OneOpset

/-!
# Proofs/Expr/Connective — joining trees and joining degrees

Conjunction and disjunction exist on trees, on degrees, and on what a marker is applied to.  A
`Connective` is one of the two, with all its forms.

The forms look at operation sets at different moments: a combinator when the tree is made
(`Connective.join`), a degree when the operation is applied (`Connective.apply`).  A tree evaluates
to a degree of its own operation set (`evaluate_opset`), so both see the same two classes:
evaluating a joined tree is joining the degrees (`evaluate_node`), and one form is a mismatch where
the other is.
-/

namespace FuzzyLogic

/-- The two operations that join. -/
inductive Connective
  | conjunction
  | disjunction

namespace Connective

/-- The name of the operation. -/
def name : Connective → String
  | conjunction => "conjunction"
  | disjunction => "disjunction"

/-- The kind of node it makes, as messages name it. -/
def nodeName : Connective → String
  | conjunction => "And"
  | disjunction => "Or"

/-- The node. -/
def node : Connective → Node → Node → Node
  | conjunction => .and
  | disjunction => .or

/-- The combinator. -/
def join : Connective → Node → Node → Except Fault Node
  | conjunction => Node.conjoin
  | disjunction => Node.disjoin

/-- The hook. -/
def hook : Connective → Opset → BinaryHook
  | conjunction => Opset.rawAnd
  | disjunction => Opset.rawOr

/-- The operation on degrees. -/
def apply : Connective → Membership → Membership → Except Fault Membership
  | conjunction => Membership.conjoin
  | disjunction => Membership.disjoin

/-- The operation on degrees, by an operation set. -/
def under : Connective → Opset → Membership → Membership → Except Fault Membership
  | conjunction => Opset.conjunction
  | disjunction => Opset.disjunction

/-- The operation on what a marker is applied to. -/
def mark : Connective → Opset → MarkerOperand → MarkerOperand → Except Fault Membership
  | conjunction => Opset.markConjunction
  | disjunction => Opset.markDisjunction

variable {c : Connective} {x y : Node} {m n : Membership} {o : Opset}

/-! ## Joining trees -/

theorem join_of_opset_eq (h : x.opset = y.opset) : c.join x y = .ok (c.node x y) := by
  cases c with
  | conjunction => exact Node.conjoin_of_opset_eq h
  | disjunction => exact Node.disjoin_of_opset_eq h

theorem join_of_not_same (h : x.opset.same y.opset = false) :
    c.join x y = .error (.opsetMismatch c.nodeName x.opset.className y.opset.className) := by
  cases c with
  | conjunction => exact Node.conjoin_of_not_same h
  | disjunction => exact Node.disjoin_of_not_same h

/-! ## Joining degrees -/

/-- Both degrees are checked, and then the hook is applied. -/
theorem under_eq (c : Connective) (o : Opset) (m n : Membership) : c.under o m n = (do
    o.checkOperand c.name m.opset
    o.checkOperand c.name n.opset
    return ⟨← c.hook o m.raw n.raw, o⟩) := by cases c <;> rfl

/-- Degrees are joined by the operation set of the first. -/
theorem apply_eq (c : Connective) (m n : Membership) : c.apply m n = c.under m.opset m n := by
  cases c <;> rfl

theorem apply_of_opset_eq (h : m.opset = n.opset) :
    c.apply m n = Node.tagged m.opset (c.hook m.opset m.raw n.raw) := by
  rw [apply_eq, under_eq, ← h, Opset.checkOperand_self]
  rfl

theorem apply_of_not_same (h : m.opset.same n.opset = false) :
    c.apply m n = .error (.opsetMismatch c.name m.opset.className n.opset.className) := by
  have hcheck : m.opset.checkOperand c.name n.opset =
      .error (.opsetMismatch c.name m.opset.className n.opset.className) := by
    have hsymm : n.opset.same m.opset = false := by
      rw [Opset.same] at h ⊢
      rwa [BEq.comm]
    rw [Opset.checkOperand, hsymm, if_neg Bool.false_ne_true]
  rw [apply_eq, under_eq, Opset.checkOperand_self, hcheck]
  rfl

/-- A marker joins degrees by its operation set. -/
theorem mark_eq_under (c : Connective) (o : Opset) (p q : MarkerOperand) : c.mark o p q = (do
    let m ← o.operand p
    let n ← o.operand q
    c.under o m n) := by cases c <;> rfl

end Connective

/-! ## Trees -/

namespace Node

variable {x y : Node} {m : Membership} {o : Opset}

theorem leaves_node (c : Connective) (x y : Node) : (c.node x y).leaves = x.leaves ++ y.leaves := by
  cases c <;> rfl

theorem fold_node (c : Connective) (o : Opset) (x y : Node) : (c.node x y).fold o = (do
    let a ← x.fold o
    let b ← y.fold o
    c.hook o a b) := by cases c <;> rfl

/-- A tree evaluates to a degree of its operation set. -/
theorem Uniform.evaluate_opset (h : x.Uniform o) (hm : x.evaluate = .ok m) : m.opset = x.opset := by
  rw [evaluate_eq_fold h] at hm
  obtain ⟨d, -, rfl⟩ := Outcome.map_eq_ok.mp hm
  exact h.opset_eq.symm

/-- **Evaluating a negation is negating the degree.** -/
theorem evaluate_negate (h : x.Uniform o) :
    x.negate.evaluate = x.evaluate >>= Membership.negate := by
  rw [negate, evaluate]
  cases hm : x.evaluate with
  | error f => rfl
  | ok m => exact congrArg (Opset.negation · m) (h.evaluate_opset hm).symm

/-- **Evaluating a joined tree is joining the degrees.** -/
theorem evaluate_node (c : Connective) (h : x.Uniform o) : (c.node x y).evaluate = (do
    let a ← x.evaluate
    let b ← y.evaluate
    c.apply a b) := by
  cases hm : x.evaluate with
  | error f => cases c <;> (rw [Connective.node, evaluate, hm]; rfl)
  | ok m =>
    have hopset := h.evaluate_opset hm
    cases c with
    | conjunction =>
      rw [Connective.node, evaluate, hm, ← hopset]
      rfl
    | disjunction =>
      rw [Connective.node, evaluate, hm, ← hopset]
      rfl

end Node

end FuzzyLogic
