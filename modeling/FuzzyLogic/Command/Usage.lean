import FuzzyLogic.Fault

/-!
# Command/Usage — arguments that are refused

One cause per constructor, worded by `UsageFault.message`; a `UsageRefusal` says which program
refuses.
-/

namespace FuzzyLogic

/-- Why arguments are refused. -/
inductive UsageFault
  /-- The start of several switches. -/
  | ambiguous (argument : String) (candidates : List String)
  /-- A value for a switch that takes none. -/
  | ignoredValue (switch value : String)
  /-- No value for a switch that takes one. -/
  | missingValue (switch : String)
  /-- A value that is no good, and why. -/
  | badValue (switch reason : String)
  /-- A value that is none of those to choose from. -/
  | badChoice (switch value : String) (choices : List String)
  /-- A switch after another that excludes it. -/
  | excluded (switch other : String)
  /-- An operand that is not there. -/
  | missingOperand (name : String)
  /-- Arguments that nothing takes. -/
  | unrecognized (arguments : List String)
  deriving DecidableEq

/-- The wording of a fault. -/
def UsageFault.message : UsageFault → String
  | .ambiguous argument candidates =>
    "ambiguous option: " ++ argument ++ " could match " ++ Fault.commaList candidates
  | .ignoredValue switch value =>
    "argument " ++ switch ++ ": ignored explicit argument " ++ Text.quoted value
  | .missingValue switch => "argument " ++ switch ++ ": expected one argument"
  | .badValue switch reason => "argument " ++ switch ++ ": " ++ reason
  | .badChoice switch value choices =>
    "argument " ++ switch ++ ": invalid choice: " ++ Text.quoted value ++ " (choose from " ++
      Fault.commaList (choices.map Text.quoted) ++ ")"
  | .excluded switch other =>
    "argument " ++ switch ++ ": not allowed with argument " ++ other
  | .missingOperand name => "the following arguments are required: " ++ name
  | .unrecognized arguments => "unrecognized arguments: " ++ " ".intercalate arguments

/-- A fault and the program that finds it. -/
structure UsageRefusal where
  program : String
  fault : UsageFault
  deriving DecidableEq

/-- The line that tells the user. -/
def UsageRefusal.message (r : UsageRefusal) : String := r.program ++ ": error: " ++ r.fault.message

/-- Why arguments come to nothing: they are refused, or only help is wanted. -/
inductive Halt
  | refused (fault : UsageFault)
  | help
  deriving DecidableEq

end FuzzyLogic
