import FuzzyLogic.Number

/-!
# Opset/Basic — operation sets

An operation set says what negation, disjunction and conjunction do to degrees.  Its three **hooks**
work on raw numbers, check nothing, and may fail.  An operation set is a class: what tells two apart
is their identity, not their name or their hooks.

An abstract operation set may leave hooks out; calling one of these is a fault of its own.
-/

namespace FuzzyLogic

/-- A hook on one degree. -/
abbrev UnaryHook := Number → Except Fault Number

/-- A hook on two degrees. -/
abbrev BinaryHook := Number → Number → Except Fault Number

/-- What a class holds under the name of a hook. -/
inductive Hook (α : Type)
  /-- Nothing. -/
  | missing
  /-- A constant of some type, which cannot be called. -/
  | constant (typeName : String)
  /-- A function. -/
  | function (run : α)

namespace Hook

variable {α : Type}

/-- Holds a function. -/
def isFunction : Hook α → Bool
  | function _ => true
  | _ => false

/-- The function, looked up under a name in a class. -/
def get (className name : String) : Hook α → Except Fault α
  | missing => .error (.missingClassAttribute className name)
  | constant typeName => .error (.notCallable typeName)
  | function run => .ok run

/-- An own hook, else the inherited one. -/
def orElse : Hook α → Hook α → Hook α
  | missing, inherited => inherited
  | own, _ => own

end Hook

/-- An operation set. -/
structure Opset where
  /-- Tells operation sets apart. -/
  id : Nat
  /-- The name of the class. -/
  className : String
  /-- Where the class is defined. -/
  home : String
  /-- The name it registers under. -/
  name : String
  /-- Whether all three operations are differentiable. -/
  differentiable : Bool
  /-- Formulas of the operations, for listings. -/
  formulas : List String
  /-- The documentation of the class itself. -/
  doc : Option String
  negationHook : Hook UnaryHook
  disjunctionHook : Hook BinaryHook
  conjunctionHook : Hook BinaryHook

namespace Opset

/-- The same class. -/
def same (o p : Opset) : Bool := o.id == p.id

/-- Home and class name, which a class may share with a later one. -/
def qualified (o : Opset) : String := o.home ++ "." ++ o.className

/-- All three hooks are functions. -/
def isConcrete (o : Opset) : Bool :=
  o.negationHook.isFunction && o.disjunctionHook.isFunction && o.conjunctionHook.isFunction

/-- The negation of a raw number. -/
def rawNot (o : Opset) (x : Number) : Except Fault Number := do
  (← o.negationHook.get o.className "raw_not") x

/-- The disjunction of raw numbers. -/
def rawOr (o : Opset) (a b : Number) : Except Fault Number := do
  (← o.disjunctionHook.get o.className "raw_or") a b

/-- The conjunction of raw numbers. -/
def rawAnd (o : Opset) (a b : Number) : Except Fault Number := do
  (← o.conjunctionHook.get o.className "raw_and") a b

/-- The root of all operation sets, without any hook. -/
def root : Opset where
  id := 0
  className := "Opset"
  home := "fuzzy_systems.opset.base"
  name := ""
  differentiable := false
  formulas := []
  doc := some "Base class for operation sets."
  negationHook := .missing
  disjunctionHook := .missing
  conjunctionHook := .missing

end Opset

end FuzzyLogic
