import FuzzyLogic.Formula.Token
import FuzzyLogic.Text.Quoted

/-!
# Formula/Refusal — why a text is no formula

A refusal is a cause and the place it is reported at.  `SyntaxFault` adds the text, and with it the
diagram: the text and, on a line below, a caret under the place.
-/

namespace FuzzyLogic

/-- Why a text is no formula. -/
inductive RefusalCause
  /-- The text holds no token. -/
  | empty
  /-- A character begins no token. -/
  | strayCharacter (c : Char)
  /-- A point has no digits after it. -/
  | missingFraction
  /-- A number runs into a point, a letter, a digit or an underscore. -/
  | malformedNumber (text : String)
  /-- A number exceeds one. -/
  | notADegree (text : String)
  /-- A closing parenthesis closes nothing. -/
  | unmatchedClose
  /-- An opening parenthesis stays open. -/
  | unclosed
  /-- Nothing stands between two parentheses. -/
  | emptyParentheses
  /-- An operand follows an operand. -/
  | missingOperator (found : Token)
  /-- A negation has no operand. -/
  | danglingNegation (op : Token)
  /-- The text begins with a binary operator. -/
  | leadingOperator (op : Token)
  /-- A binary operator follows a binary operator. -/
  | consecutiveOperators (first second : Token)
  /-- A binary operator follows an opening parenthesis. -/
  | missingLeft (op : Token)
  /-- A closing parenthesis follows a binary operator. -/
  | missingRight (op : Token)
  /-- The text ends with a binary operator. -/
  | trailingOperator (op : Token)
  /-- The text ends where an operand should stand. -/
  | missingOperand (found : Token)
  /-- A complete formula is followed by what cannot follow one. -/
  | unexpected (found : Token)
  /-- A complete formula in parentheses is followed by what cannot follow one. -/
  | expectedClose (found : Token)
  deriving DecidableEq, Repr

namespace RefusalCause

/-- The wording of a cause. -/
def reason : RefusalCause → String
  | .empty => "Empty expression"
  | .strayCharacter c => "Unexpected character " ++ Text.quoted (String.singleton c)
  | .missingFraction => "Malformed number: expected digits after '.'"
  | .malformedNumber text => "Malformed number '" ++ text ++ "'"
  | .notADegree text =>
    "Literal " ++ text ++ " is not a membership degree; literals must be within [0, 1]"
  | .unmatchedClose => "Unmatched ')'"
  | .unclosed => "Unclosed '('"
  | .emptyParentheses => "Empty parentheses"
  | .missingOperator found =>
    "Missing operator before " ++ found.describe ++ "; operands must be joined with '&' or '|'"
  | .danglingNegation op => "Dangling " ++ op.describe ++ ": negation has no operand"
  | .leadingOperator op => "Expression starts with operator " ++ op.describe
  | .consecutiveOperators first second =>
    "Consecutive operators " ++ first.describe ++ " and " ++ second.describe
  | .missingLeft op => "Operator " ++ op.describe ++ " is missing its left operand"
  | .missingRight op => "Operator " ++ op.describe ++ " is missing its right operand"
  | .trailingOperator op => "Expression ends with operator " ++ op.describe
  | .missingOperand found => "Expected an operand but found " ++ found.describe
  | .unexpected found => "Unexpected " ++ found.describe
  | .expectedClose found => "Expected ')' but found " ++ found.describe

end RefusalCause

/-- A cause and the place it is reported at. -/
structure Refusal where
  cause : RefusalCause
  position : Nat
  deriving DecidableEq, Repr

/-- A refused text. -/
structure SyntaxFault where
  source : String
  refusal : Refusal
  deriving DecidableEq, Repr

namespace SyntaxFault

/-- The reason without the diagram. -/
def reason (f : SyntaxFault) : String := f.refusal.cause.reason

/-- The place, counted in characters from zero. -/
def position (f : SyntaxFault) : Nat := f.refusal.position

/-- The text, and a caret on the line below it. -/
def diagram (f : SyntaxFault) : String :=
  "  " ++ f.source ++ "\n  " ++ String.ofList (List.replicate f.position ' ') ++ "^"

/-- The whole message. -/
def message (f : SyntaxFault) : String :=
  f.reason ++ " at position " ++ toString f.position ++ "\n" ++ f.diagram

end SyntaxFault

end FuzzyLogic
