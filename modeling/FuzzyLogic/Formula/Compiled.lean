import FuzzyLogic.Entries
import FuzzyLogic.Expr.Basic
import FuzzyLogic.Formula.Parser

/-!
# Formula/Compiled — formulas that wait for their operands

Compiling fixes the shape of an expression; `Compiled.build` then binds the names and makes the tree
that the combinators would make by hand.  A literal belongs to the operation set that is given, else
to that of the operand of the first name.

Which of several faults is reported: the first name, in order of appearance, that has no operand or
one that is none; then a missing operation set; then what the combinators refuse.
-/

namespace FuzzyLogic

/-- A text and the formula it writes. -/
structure Compiled where
  source : String
  formula : Formula
  deriving DecidableEq

/-- What a name may be bound to. -/
inductive Operand
  | node (n : Node)
  /-- A fuzzy value, by its membership. -/
  | value (m : Membership)
  /-- A fuzzy value that fails to say its membership. -/
  | failing (fault : Fault)
  /-- Something else, by the name of its type. -/
  | stranger (typeName : String)

namespace Operand

/-- The tree that an operand stands for. -/
def toNode (name : String) : Operand → Except Fault Node
  | node n => .ok n
  | value m => .ok (.atom m)
  | failing fault => .error fault
  | stranger typeName => .error (.badOperand name typeName)

end Operand

namespace Compiled

/-- Compiles a text. -/
def ofSource (source : String) : Except Fault Compiled :=
  ((Formula.parse source).mapError .syntaxFault).map (⟨source, ·⟩)

/-- The fully parenthesised text. -/
def canonical (c : Compiled) : String := c.formula.canonical

/-- The operand names in order of first appearance. -/
def names (c : Compiled) : List String := c.formula.names

/-- Whether a literal degree appears. -/
def hasLiterals (c : Compiled) : Bool := c.formula.hasLiterals

/-! ## Binding -/

variable {m : Type → Type} {α : Type}

/-- How to bind names and build a result from them: what a name is bound to, and what negation and
the binary operations make of results. -/
structure Builder (m : Type → Type) (α : Type) where
  operand? : String → Option (m α)
  negation : α → m α
  conjunction : α → α → m α
  disjunction : α → α → m α

/-- The operands of names, each bound once. -/
def bindNames [Monad m] [MonadExcept Fault m] (B : Builder m α) (c : Compiled) :
    List String → m (List (String × α))
  | [] => pure []
  | name :: rest => do
    match B.operand? name with
    | none => throw (.unboundName name c.source c.names)
    | some operand =>
      let value ← operand
      return (name, value) :: (← bindNames B c rest)

/-- What the parts of a formula become under bound names and a way to make literals. -/
def meaning [Monad m] [MonadExcept Fault m] (B : Builder m α) (bound : List (String × α))
    (literal : Binary64 → m α) : Formula.Meaning m α where
  name := fun name =>
    match bound.lookup name with
    | some value => pure value
    | none => throw (.unknownReference name)
  literal := literal
  negation := B.negation
  conjunction := B.conjunction
  disjunction := B.disjunction

/-- Binds the names and builds a result.  Literals are made as given, else as the first operand
makes them. -/
def buildWith [Monad m] [MonadExcept Fault m] (B : Builder m α) (given : Option (Binary64 → m α))
    (ofOperand : α → m (Binary64 → m α)) (c : Compiled) : m α := do
  let bound ← bindNames B c c.names
  let literal? ← match given, bound with
    | some literal, _ => pure (some literal)
    | none, (_, value) :: _ => some <$> ofOperand value
    | none, [] => pure none
  match literal?, c.formula.literals with
  | some literal, _ => c.formula.assemble (meaning B bound literal)
  | none, [] => c.formula.assemble (meaning B bound fun _ => throw .undefinedOpset)
  | none, first :: _ => throw (.literalWithoutOpset first.plainText)

/-- The leaf of a literal under an operation set. -/
def literalNode (o : Opset) (value : Binary64) : Except Fault Node :=
  Node.ofDegree (.float value) o

/-- Builds expression trees by the combinators. -/
def nodes (scope : String → Option Operand) : Builder (Except Fault) Node where
  operand? := fun name => (scope name).map (·.toNode name)
  negation := fun x => .ok x.negate
  conjunction := Node.conjoin
  disjunction := Node.disjoin

/-- Binds operands and builds the expression tree. -/
def build (c : Compiled) (scope : String → Option Operand) (opset : Option Opset) :
    Except Fault Node :=
  c.buildWith (nodes scope) (opset.map literalNode) fun x => .ok (literalNode x.opset)

/-! ## Named operands -/

/-- Leaves for named degrees under one operation set, labelled with their names if asked; a later
degree of a name replaces an earlier one. -/
def bindOperands (assignments : List (String × Number)) (o : Opset) (labels : Bool) :
    Except Fault (List (String × Node)) :=
  assignments.foldlM (fun bound (name, raw) => do
    let value ← Membership.of raw o
    let leaf := if labels then Node.labeled value (.text name) else .atom value
    return Entries.put name leaf bound) []

/-- The scope of bound leaves. -/
def scopeOf (bound : List (String × Node)) (name : String) : Option Operand :=
  (bound.lookup name).map .node

end Compiled

end FuzzyLogic
