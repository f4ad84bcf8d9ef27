import FuzzyLogic.Decimal.Reader
import FuzzyLogic.Fault
import FuzzyLogic.Formula.Lexer

/-!
# Command/Assignment — `NAME=VALUE`

The name is what stands before the first equals sign, without white space around it, and must be a
name that formulas know; the value is a number.  Whether it is a degree is not asked here.
-/

namespace FuzzyLogic

/-- Whether a text is an identifier of the formula language. -/
def isOperandName (name : String) : Bool :=
  match name.toList with
  | [] => false
  | c :: rest => Token.isIdentStart c && rest.all Token.isIdentChar

/-- Reads an assignment. -/
def parseAssignment (text : String) : Except Fault (String × Binary64) :=
  let cs := text.toList
  let name := String.ofList (Text.trim (cs.takeWhile (· != '=')))
  match cs.dropWhile (· != '=') with
  | [] => .error (.notAnAssignment text)
  | _ :: after =>
    let raw := String.ofList after
    if name.isEmpty then .error (.notAnAssignment text)
    else if !isOperandName name then .error (.badOperandName name)
    else
      match Binary64.read? raw with
      | some value => .ok (name, value)
      | none => .error (.badOperandValue name (Text.strip raw))

end FuzzyLogic
