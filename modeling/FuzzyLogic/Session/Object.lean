import FuzzyLogic.Session.Value

/-!
# Session/Object — making objects and asking them

A session holds named values, the registry, the classes by name, a compile cache, and the serial of
the next object.  A run may fail; what it changed before that stays changed.

Every operation here first looks whether its operands are of the kinds it is meant for, and then
hands them to the library; each wrong kind has a fault of its own.
-/

namespace FuzzyLogic

/-- The state of a session. -/
structure Session where
  named : List (String × Value)
  registry : Registry
  classes : List (String × Opset)
  cache : CompileCache
  nextSerial : Nat

namespace Session

/-- A session that holds the catalogue only. -/
def start : Session where
  named := []
  registry := .catalogue
  classes := (Opset.root :: Catalogue.all).map fun o => (o.className, o)
  cache := .empty
  nextSerial := 0

/-- A run in a session. -/
abbrev Run := ExceptT Fault (StateM Session)

/-- A run that only computes. -/
def pureRun {α : Type} (r : Except Fault α) : Run α := ExceptT.mk (pure r)

/-- A new serial. -/
def fresh : Run Nat := do
  let s ← get
  set { s with nextSerial := s.nextSerial + 1 }
  return s.nextSerial

/-! ## Making objects -/

/-- A new membership. -/
def newMembership (m : Membership) : Run Value := return .membership (← fresh) m

/-- A new node made of some values. -/
def newNode (n : Node) (parts : List Value) : Run Value := return .node (← fresh) n parts

/-- A new node without a leaf. -/
def newHollow (typeName : String) (parts : List Value) : Run Value :=
  return .hollow (← fresh) typeName parts

/-- The missing attribute of a value. -/
def noAttribute {α : Type} (v : Value) (name : String) : Run α :=
  match v.className? with
  | some className => throw (.missingClassAttribute className name)
  | none => throw (.missingAttribute v.typeName name)

/-- The validating construction of a membership. -/
def construct (raw opset : Value) : Run Value := do
  match raw, opset with
  | .number n, .opset o => newMembership (← pureRun (Membership.of n o))
  | .number _, v => throw (.badOpset v.shown)
  | v, _ => throw (.badRaw v.typeName)

/-- A plain leaf. -/
def makeAtom (value : Value) : Run Value :=
  match value with
  | .membership _ m => newNode (.atom m) [value]
  | v => throw (.badLeaf "Atom" v.typeName)

/-- A leaf of a validated degree. -/
def makeLeaf (raw opset : Value) : Run Value := do makeAtom (← construct raw opset)

/-- A labelled leaf. -/
def makeLabeled (value label : Value) : Run Value :=
  match value, label with
  | .membership _ _, .none => throw .labelMissing
  | .membership _ m, l => newNode (.labeled m l.toLabel) [value, l]
  | v, _ => throw (.badLeaf "Labeled" v.typeName)

/-- Puts a label on a plain leaf. -/
def attachLabel (node label : Value) : Run Value :=
  match node with
  | .node _ (.atom _) [value] => makeLabeled value label
  | v => throw (.notLabelable v.typeName)

/-- A negation. -/
def makeNot (child : Value) : Run Value :=
  match child with
  | .node _ n _ => newNode n.negate [child]
  | .hollow .. => newHollow "Not" [child]
  | v => throw (.badChild "Not" "child" v.typeName)

/-- A conjunction or disjunction. -/
def makeBinary (name : String) (join : Node → Node → Except Fault Node) (left right : Value) :
    Run Value :=
  match left, right with
  | .node _ x _, .node _ y _ => do newNode (← pureRun (join x y)) [left, right]
  | .node .., .hollow .. | .hollow .., .node .. | .hollow .., .hollow .. => throw .undefinedOpset
  | .node .., v | .hollow .., v => throw (.badChild name "right" v.typeName)
  | v, _ => throw (.badChild name "left" v.typeName)

/-- A conjunction. -/
def makeAnd (left right : Value) : Run Value := makeBinary "And" Node.conjoin left right

/-- A disjunction. -/
def makeOr (left right : Value) : Run Value := makeBinary "Or" Node.disjoin left right

/-- An alternative. -/
def makeAlternative (side branch : Value) : Run Value :=
  match side, branch with
  | .side s, .node _ n _ => newNode (.alternative s n) [side, branch]
  | .side _, .hollow .. => newHollow "Alternative" [side, branch]
  | .side _, v => throw (.badBranch v.typeName)
  | v, _ => throw (.badSide v.shown)

/-- A new marker of an operation set. -/
def newMarker (opset : Value) : Run Value := return .marker (← fresh) opset

/-- A new domain object with a degree. -/
def newDomain (inner : Value) : Run Value := return .domain (← fresh) inner

/-- A new domain object that does not say its degree. -/
def newBroken : Run Value := return .broken (← fresh)

/-! ## Asking objects -/

/-- Whether a value is a node. -/
def isNode : Value → Bool
  | .node .. | .hollow .. => true
  | _ => false

/-- Whether a value has a degree. -/
def isFuzzy : Value → Bool
  | .membership .. | .domain .. | .broken _ => true
  | _ => false

/-- The operation set of a value. -/
def opsetOf (v : Value) : Run Value :=
  match v with
  | .membership _ m => return .opset m.opset
  | .node _ n _ => return .opset n.opset
  | .hollow .. => throw .undefinedOpset
  | .marker _ o => return o
  | v => noAttribute v "opset"

/-- The raw degree of a value. -/
def rawOf (v : Value) : Run Number :=
  match v with
  | .membership _ m => return m.raw
  | v => noAttribute v "raw"

/-- What a fuzzy value says its degree is. -/
def membershipOf (v : Value) : Run Value :=
  match v with
  | .membership .. => return v
  | .domain _ inner => return inner
  | .broken _ => throw (.undefinedMembership "Broken")
  | v => noAttribute v "membership"

/-- The leaf of a fuzzy value. -/
def toExpr (v : Value) : Run Value := do makeAtom (← membershipOf v)

/-- Refuses an operand of another operation set. -/
def checkOperand (o : Opset) (operation : String) (v : Value) : Run Unit := do
  match ← opsetOf v with
  | .opset p => pureRun (o.checkOperand operation p)
  | other =>
    match other.className? with
    | some className => throw (.opsetMismatch operation o.className className)
    | none => throw (.missingAttribute other.typeName "__name__")

/-- Applies the negation of an operation set. -/
def applyNegation (opset v : Value) : Run Value := do
  match opset with
  | .opset o =>
    checkOperand o "negation" v
    newMembership ⟨← pureRun (o.rawNot (← rawOf v)), o⟩
  | other => noAttribute other "negation"

/-- Applies a binary operation of an operation set. -/
def applyBinary (operation : String) (hook : Opset → BinaryHook) (opset v w : Value) :
    Run Value := do
  match opset with
  | .opset o =>
    checkOperand o operation v
    checkOperand o operation w
    let a ← rawOf v
    let b ← rawOf w
    newMembership ⟨← pureRun (hook o a b), o⟩
  | other => noAttribute other operation

/-- Applies the disjunction of an operation set. -/
def applyDisjunction (opset v w : Value) : Run Value :=
  applyBinary "disjunction" Opset.rawOr opset v w

/-- Applies the conjunction of an operation set. -/
def applyConjunction (opset v w : Value) : Run Value :=
  applyBinary "conjunction" Opset.rawAnd opset v w

/-- What a marker is applied to, as a membership. -/
def markerOperand (opset v : Value) : Run Value := do
  if isFuzzy v then membershipOf v
  else
    match v with
    | .number n => construct (.float (← pureRun n.toBinary64)) opset
    | v => throw (.badMarkerOperand v.typeName)

/-- A value as a double, where numbers and degrees are asked for. -/
def realOf (v : Value) : Run Binary64 :=
  match v with
  | .membership _ ⟨.float x, _⟩ => return x
  | .membership _ m => throw (.nonFloatDegree m.raw.typeName)
  | v =>
    match v.number? with
    | some n => pureRun n.toBinary64
    | none => throw (.notReal v.typeName)

/-! ## Evaluation and text -/

/-- The value that a leaf holds, also behind alternatives. -/
def leafValue? : Value → Option Value
  | .node _ (.atom _) (value :: _) => some value
  | .node _ (.labeled _ _) (value :: _) => some value
  | .node _ (.alternative _ _) [_, branch] => leafValue? branch
  | _ => none

/-- The innermost node of a tree without leaves. -/
def hollowCore : Value → String
  | .hollow _ _ [child] => hollowCore child
  | .hollow _ _ [_, branch] => hollowCore branch
  | v => v.typeName

/-- The degree of an expression: that of a leaf is the very value the leaf holds. -/
def evaluate (v : Value) : Run Value := do
  match v with
  | .node _ n _ =>
    match leafValue? v with
    | some value => return value
    | none => newMembership (← pureRun n.evaluate)
  | v => throw (.unknownExpression (hollowCore v))

/-- The text of an expression. -/
def render (v : Value) : Run Value := do
  match v with
  | .node _ n _ => return .text n.render
  | v => throw (.unknownExpression (hollowCore v))

/-- The bytes of data at the leaves of an expression. -/
def footprint (v : Value) : Run Value := do
  match v with
  | .node _ n _ => return .int n.footprint
  | v => throw (.unknownExpression (hollowCore v))

end Session

end FuzzyLogic
