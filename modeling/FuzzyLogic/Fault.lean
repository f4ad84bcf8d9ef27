import FuzzyLogic.Decimal.Layout
import FuzzyLogic.Formula.Refusal

/-!
# Fault — what can go wrong

One cause per constructor, with what its message needs.  `Fault.message` words them, `Fault.kind`
sorts them into the kinds that reports name.
-/

namespace FuzzyLogic

/-- Why an operation fails. -/
inductive Fault
  /-- A text is no formula. -/
  | syntaxFault (fault : SyntaxFault)
  /-- A name of a formula is bound to nothing. -/
  | unboundName (name source : String) (names : List String)
  /-- A formula holds literals only and no operation set is given. -/
  | literalWithoutOpset (text : String)
  /-- A name of a formula is bound to what is no operand. -/
  | badOperand (name typeName : String)
  /-- What is to be compiled is no text. -/
  | badSource (typeName : String)
  /-- What is to be looked up has no hash. -/
  | unhashable (typeName : String)
  /-- A degree lies outside `[0, 1]`. -/
  | outOfRange (raw : Binary64) (opsetName : String)
  /-- NaN is to become a degree. -/
  | notANumber (opsetName : String)
  /-- A degree is to be made of what is no number. -/
  | badRaw (typeName : String)
  /-- A degree is to belong to what is no operation set. -/
  | badOpset (shown : String)
  /-- Operands belong to different operation sets. -/
  | opsetMismatch (operation left right : String)
  /-- What is to become a double is no number. -/
  | notReal (typeName : String)
  /-- A degree that is no double is to become one. -/
  | nonFloatDegree (typeName : String)
  /-- What is to become a double is neither number nor text. -/
  | notConvertible (typeName : String)
  /-- A text that is to become a double writes no number. -/
  | badNumberText (shown : String)
  /-- A fuzzy value does not say its degree. -/
  | undefinedMembership (typeName : String)
  /-- A marker is applied to what is neither number nor fuzzy value. -/
  | badMarkerOperand (typeName : String)
  /-- A division by zero. -/
  | divisionByZero
  /-- A whole number beyond the doubles is to become one. -/
  | integerTooLarge
  /-- A quotient of whole numbers is beyond the doubles. -/
  | quotientTooLarge
  /-- A whole number of too many digits is to be written. -/
  | tooManyDigits (limit : Nat)
  /-- A concrete operation set lacks hooks. -/
  | missingHooks (className : String) (hooks : List String)
  /-- A name of the registry belongs to another operation set. -/
  | nameTaken (key holder claimant : String)
  /-- No operation set is registered under a name. -/
  | unknownOpset (name : String) (available : List String)
  /-- No operation set has the name that a command asks for. -/
  | unknownOperationSet (name : String) (available : List String)
  /-- A markup cannot be read. -/
  | badMarkup (complaint : String)
  /-- An operation set is to be instantiated. -/
  | notInstantiable (className : String)
  /-- A leaf is to hold what is no degree. -/
  | badLeaf (node typeName : String)
  /-- A labelled leaf has no label. -/
  | labelMissing
  /-- An operand of a node is no node. -/
  | badChild (node operand typeName : String)
  /-- The side of an alternative is no side. -/
  | badSide (shown : String)
  /-- The branch of an alternative is no node. -/
  | badBranch (typeName : String)
  /-- A label is put on what is no plain leaf. -/
  | notLabelable (typeName : String)
  /-- What is to be evaluated or rendered is no expression. -/
  | unknownExpression (typeName : String)
  /-- A node is used as a truth value. -/
  | noTruthValue (typeName : String)
  /-- A tag is to have no text. -/
  | tagTextMissing (name : String)
  /-- A node does not say its operation set. -/
  | undefinedOpset
  /-- Operands do not know a binary operator. -/
  | unsupportedOperands (operator left right : String)
  /-- An operand does not know a unary operator. -/
  | unsupportedOperand (operator typeName : String)
  /-- Operands cannot be ordered. -/
  | unorderable (operator left right : String)
  /-- An object lacks an attribute. -/
  | missingAttribute (typeName name : String)
  /-- A class lacks an attribute. -/
  | missingClassAttribute (className name : String)
  /-- An attribute cannot be set. -/
  | readOnlyAttribute (typeName name : String)
  /-- A field of an immutable object is set. -/
  | frozenField (field : String)
  /-- What is called is no function. -/
  | notCallable (typeName : String)
  /-- A name of a session stands for nothing. -/
  | unknownReference (name : String)
  /-- An assignment lacks a name or an equals sign. -/
  | notAnAssignment (text : String)
  /-- The name of an assignment is no operand name. -/
  | badOperandName (name : String)
  /-- The value of an assignment is no number. -/
  | badOperandValue (name raw : String)
  deriving DecidableEq

/-- The kinds that reports name. -/
inductive FaultKind
  | expressionSyntaxError
  | unboundNameError
  | outOfRangeError
  | notANumberError
  | opsetMismatchError
  | typeError
  | valueError
  | keyError
  | attributeError
  | zeroDivisionError
  | overflowError
  | notImplementedError
  | frozenInstanceError
  | argumentTypeError
  | markupError
  | unknownRef
  deriving DecidableEq

namespace FaultKind

/-- The name of a kind. -/
def label : FaultKind → String
  | .expressionSyntaxError => "ExpressionSyntaxError"
  | .unboundNameError => "UnboundNameError"
  | .outOfRangeError => "OutOfRangeError"
  | .notANumberError => "NotANumberError"
  | .opsetMismatchError => "OpsetMismatchError"
  | .typeError => "TypeError"
  | .valueError => "ValueError"
  | .keyError => "KeyError"
  | .attributeError => "AttributeError"
  | .zeroDivisionError => "ZeroDivisionError"
  | .overflowError => "OverflowError"
  | .notImplementedError => "NotImplementedError"
  | .frozenInstanceError => "FrozenInstanceError"
  | .argumentTypeError => "ArgumentTypeError"
  | .markupError => "MarkupError"
  | .unknownRef => "UnknownRef"

end FaultKind

namespace Fault

/-- Texts with a comma between them. -/
def commaList (texts : List String) : String := ", ".intercalate texts

/-- Sorted by code points. -/
def sorted (texts : List String) : List String := texts.mergeSort (fun a b => decide (a ≤ b))

theorem sorted_perm (texts : List String) : (sorted texts).Perm texts := List.mergeSort_perm _ _

theorem sorted_pairwise (texts : List String) : (sorted texts).Pairwise (· ≤ ·) := by
  have htrans : ∀ a b c : String, decide (a ≤ b) = true → decide (b ≤ c) = true →
      decide (a ≤ c) = true := fun a b c hab hbc =>
    decide_eq_true (String.le_trans (of_decide_eq_true hab) (of_decide_eq_true hbc))
  have htotal : ∀ a b : String, (decide (a ≤ b) || decide (b ≤ a)) = true := fun a b => by
    simpa using String.le_total a b
  exact (List.pairwise_mergeSort htrans htotal _).imp of_decide_eq_true

/-- Quoted texts in square brackets. -/
def bracketList (texts : List String) : String := "[" ++ commaList (texts.map Text.quoted) ++ "]"

/-- ` (Name)`, or nothing without a name. -/
def inOpset (opsetName : String) : String :=
  if opsetName.isEmpty then "" else " (" ++ opsetName ++ ")"

/-- The names offered to one who left a name of a formula unbound. -/
def available? : Fault → Option (List String)
  | .unboundName _ _ names => some (sorted names)
  | _ => none

/-- Whether a fault is a mistake in an expression or in the degrees it is given. -/
def isMistake (f : Fault) : Bool :=
  match f with
  | .syntaxFault _ | .unboundName .. | .literalWithoutOpset _ | .outOfRange .. | .notANumber _
  | .opsetMismatch .. => true
  | _ => false

/-- The kind of a fault. -/
def kind : Fault → FaultKind
  | .syntaxFault _ => .expressionSyntaxError
  | .unboundName .. | .literalWithoutOpset _ => .unboundNameError
  | .outOfRange .. => .outOfRangeError
  | .notANumber _ => .notANumberError
  | .opsetMismatch .. => .opsetMismatchError
  | .divisionByZero => .zeroDivisionError
  | .integerTooLarge | .quotientTooLarge => .overflowError
  | .nameTaken .. | .labelMissing | .tagTextMissing _ | .badNumberText _ | .tooManyDigits _
  | .unknownOperationSet .. => .valueError
  | .badMarkup _ => .markupError
  | .unknownOpset .. => .keyError
  | .missingAttribute .. | .missingClassAttribute .. | .readOnlyAttribute .. => .attributeError
  | .undefinedMembership _ | .undefinedOpset => .notImplementedError
  | .frozenField _ => .frozenInstanceError
  | .notAnAssignment _ | .badOperandName _ | .badOperandValue .. => .argumentTypeError
  | .unknownReference _ => .unknownRef
  | _ => .typeError

/-- The wording of a fault. -/
def message : Fault → String
  | .syntaxFault f => f.message
  | .unboundName name source names =>
    "Operand '" ++ name ++ "': not bound when building '" ++ source ++ "'" ++
      (if names.isEmpty then "" else ". Available: " ++ commaList (sorted names))
  | .literalWithoutOpset text =>
    "Operand '" ++ text ++
      "': literal has no operation set; pass opset= or bind at least one operand"
  | .badOperand name typeName =>
    "Operand '" ++ name ++ "': expected an expression node or fuzzy value, got " ++ typeName
  | .badSource typeName => "compile_expression: source must be str, got " ++ typeName
  | .unhashable typeName => "unhashable type: '" ++ typeName ++ "'"
  | .outOfRange raw opsetName =>
    "Membership" ++ inOpset opsetName ++ ": value must be within [0.0, 1.0], got " ++
      raw.exactText ++ ". Use Membership.with_fit() to clamp instead."
  | .notANumber opsetName =>
    "Membership" ++ inOpset opsetName ++ ": cannot fit NaN into [0.0, 1.0]"
  | .badRaw typeName => "Membership: raw value must be a real number, got " ++ typeName
  | .badOpset shown => "Membership: opset must be an Opset subclass, got " ++ shown
  | .opsetMismatch operation left right =>
    operation ++ ": operands use different operation sets (" ++ left ++ " vs " ++ right ++
      "). Build every node of one expression under the same Opset."
  | .notReal typeName => "must be real number, not " ++ typeName
  | .nonFloatDegree typeName => "Membership.__float__ returned non-float (type " ++ typeName ++ ")"
  | .notConvertible typeName =>
    "float() argument must be a string or a real number, not '" ++ typeName ++ "'"
  | .badNumberText shown => "could not convert string to float: " ++ shown
  | .undefinedMembership typeName => typeName ++ " must implement membership()"
  | .badMarkerOperand typeName =>
    "OpsetMarker: operand must be a float or FuzzyValue, got " ++ typeName
  | .divisionByZero => "division by zero"
  | .integerTooLarge => "int too large to convert to float"
  | .quotientTooLarge => "integer division result too large for a float"
  | .tooManyDigits limit =>
    "Exceeds the limit (" ++ toString limit ++
      " digits) for integer string conversion; use sys.set_int_max_str_digits() to increase the limit"
  | .missingHooks className hooks =>
    "Opset " ++ className ++ ": missing operation hooks " ++ bracketList hooks ++
      ". Required: raw_not, raw_or, raw_and"
  | .nameTaken key holder claimant =>
    "Opset name '" ++ key ++ "' already registered by " ++ holder ++ "; cannot register " ++
      claimant ++ ". Set a distinct \x60name\x60 attribute."
  | .unknownOpset name available =>
    "Unknown opset '" ++ name ++ "'. Available: " ++ commaList available
  | .unknownOperationSet name available =>
    "Unknown operation set '" ++ name ++ "'. Available: " ++ commaList available
  | .badMarkup complaint => complaint
  | .notInstantiable className =>
    className ++ " is an operation set; pass the class itself, do not instantiate it"
  | .badLeaf node typeName =>
    node ++ ": value must be a Membership, got " ++ typeName ++
      ". Use Opset.member(raw) or Membership(raw, opset)."
  | .labelMissing => "Labeled: label is required"
  | .badChild node operand typeName =>
    node ++ ": " ++ operand ++ " must be an expression node, got " ++ typeName ++
      ". Wrap plain values with .to_expr() or Opset.atom()."
  | .badSide shown => "Alternative: side must be a Side, got " ++ shown
  | .badBranch typeName => "Alternative: branch must be an expression node, got " ++ typeName
  | .notLabelable typeName => "attach_label: only Atom nodes can be labeled, got " ++ typeName
  | .unknownExpression typeName => "Unknown expression type: " ++ typeName
  | .noTruthValue typeName =>
    typeName ++
      " has no truth value; use &, |, ~ (or conjoin/disjoin/negate) instead of and/or/not"
  | .tagTextMissing name => "new_tag: text is required for tag '" ++ name ++ "'"
  | .undefinedOpset => ""
  | .unsupportedOperands operator left right =>
    "unsupported operand type(s) for " ++ operator ++ ": '" ++ left ++ "' and '" ++ right ++ "'"
  | .unsupportedOperand operator typeName =>
    "bad operand type for unary " ++ operator ++ ": '" ++ typeName ++ "'"
  | .unorderable operator left right =>
    "'" ++ operator ++ "' not supported between instances of '" ++ left ++ "' and '" ++ right ++
      "'"
  | .missingAttribute typeName name =>
    "'" ++ typeName ++ "' object has no attribute '" ++ name ++ "'"
  | .missingClassAttribute className name =>
    "type object '" ++ className ++ "' has no attribute '" ++ name ++ "'"
  | .readOnlyAttribute typeName name =>
    "'" ++ typeName ++ "' object attribute '" ++ name ++ "' is read-only"
  | .frozenField field => "cannot assign to field '" ++ field ++ "'"
  | .notCallable typeName => "'" ++ typeName ++ "' object is not callable"
  | .unknownReference name => name
  | .notAnAssignment text => "expected NAME=VALUE, got '" ++ text ++ "'"
  | .badOperandName name => "'" ++ name ++ "' is not a valid operand name"
  | .badOperandValue name raw => "value for '" ++ name ++ "' must be a number, got '" ++ raw ++ "'"

end Fault

end FuzzyLogic
