import FuzzyLogic.Command.Assignment
import FuzzyLogic.Command.Grammar
import FuzzyLogic.Opset.Registry

/-!
# Command/Invocation — what a command line asks for

At most one switch says how much the log shows.  Then comes a command with arguments of its own: an
expression, except for the listing of operation sets, and the switches of the command.
-/

namespace FuzzyLogic

/-- How much the log shows. -/
inductive Verbosity
  | quiet
  | verbose
  | debug
  deriving DecidableEq

/-- The switches of commands, together. -/
structure Options where
  assignments : List (String × Binary64)
  /-- Whether operands show by name, if the command line says so. -/
  labels? : Option Bool
  /-- Whether the report is a document. -/
  json : Bool
  opset? : Option String

/-- What is to be done. -/
inductive Command
  | eval (expression : String) (options : Options)
  | compare (expression : String) (options : Options)
  | check (expression : String) (options : Options)
  | opsets (options : Options)

/-- A command line. -/
structure Invocation where
  verbosity? : Option Verbosity
  command? : Option Command

/-- A command line that comes to nothing. -/
inductive NoInvocation
  | refused (refusal : UsageRefusal)
  | help (program : String)

namespace Invocation

/-- The name of the program. -/
def program : String := "fuzzy-systems"

/-! ## Switches -/

def helpSwitch {σ : Type} : Switch σ := ⟨["-h", "--help"], .help⟩

/-- The names of the switch for a verbosity. -/
def verbosityNames : Verbosity → List String
  | .quiet => ["-q", "--quiet"]
  | .verbose => ["-v", "--verbose"]
  | .debug => ["--debug"]

/-- How messages call the switch for a verbosity. -/
def verbosityLabel (v : Verbosity) : String := "/".intercalate (verbosityNames v)

/-- Chooses a verbosity, unless another is chosen. -/
def chooseVerbosity (v : Verbosity) : Option Verbosity → Except UsageFault (Option Verbosity)
  | none => .ok (some v)
  | some w =>
    if w = v then .ok (some v)
    else .error (.excluded (verbosityLabel v) (verbosityLabel w))

/-- The switch for a verbosity. -/
def verbositySwitch (v : Verbosity) : Switch (Option Verbosity) :=
  ⟨verbosityNames v, .flag (chooseVerbosity v)⟩

def setNames : List String := ["--set", "-s"]

/-- Assigns a degree to a name. -/
def setSwitch : Switch Options :=
  ⟨setNames, .value fun text o =>
    match parseAssignment text with
    | .ok assignment => .ok { o with assignments := o.assignments ++ [assignment] }
    | .error fault => .error (.badValue ("/".intercalate setNames) fault.message)⟩

/-- Shows operands by value. -/
def noLabelsSwitch : Switch Options :=
  ⟨["--no-labels"], .flag fun o => .ok { o with labels? := some false }⟩

/-- Reports a document. -/
def jsonSwitch : Switch Options := ⟨["--json"], .flag fun o => .ok { o with json := true }⟩

/-- Chooses an operation set by its exact name. -/
def opsetSwitch (r : Registry) : Switch Options :=
  ⟨["--opset"], .value fun name o =>
    if r.names.contains name then .ok { o with opset? := some name }
    else .error (.badChoice "--opset" name r.names)⟩

/-! ## Grammars -/

/-- The names of the commands. -/
def commandNames : List String := ["eval", "compare", "check", "opsets"]

/-- The grammar of the program. -/
def programGrammar : Grammar (Option Verbosity) where
  switches := helpSwitch :: [.quiet, .verbose, .debug].map verbositySwitch
  operands := .rest

/-- The grammar of a command. -/
def commandGrammar (r : Registry) : String → Grammar Options
  | "eval" =>
    ⟨[helpSwitch, setSwitch, noLabelsSwitch, jsonSwitch, opsetSwitch r], .one "expression"⟩
  | "compare" => ⟨[helpSwitch, setSwitch, noLabelsSwitch, jsonSwitch], .one "expression"⟩
  | "check" => ⟨[helpSwitch, jsonSwitch], .one "expression"⟩
  | _ => ⟨[helpSwitch, jsonSwitch], .none⟩

/-- The command of a name. -/
def commandOf (name : String) (operands : List String) (o : Options) : Command :=
  let expression := operands.headD ""
  match name with
  | "eval" => .eval expression o
  | "compare" => .compare expression o
  | "check" => .check expression o
  | _ => .opsets o

/-! ## Reading -/

/-- Says which program comes to nothing. -/
def stopped (program : String) : Halt → NoInvocation
  | .refused fault => .refused ⟨program, fault⟩
  | .help => .help program

/-- Reads the arguments of a command: the command, and what nothing took. -/
def readCommand (r : Registry) (name : String) (arguments : List String) :
    Except NoInvocation (Command × List String) := do
  let p ← ((commandGrammar r name).parse arguments ⟨[], none, false, none⟩).mapError
    (stopped (program ++ " " ++ name))
  return (commandOf name p.operands p.state, p.extras)

/-- Reads a command line. -/
def read (r : Registry) (arguments : List String) : Except NoInvocation Invocation := do
  let p ← (programGrammar.parse arguments none).mapError (stopped program)
  let (command?, more) ← match p.operands with
    | [] => pure (none, [])
    | name :: rest =>
      if commandNames.contains name then do
        let (command, more) ← readCommand r name rest
        pure (some command, more)
      else throw (stopped program (.refused (.badChoice "command" name commandNames)))
  match p.extras ++ more with
  | [] => return ⟨p.state, command?⟩
  | extras => throw (stopped program (.refused (.unrecognized extras)))

end Invocation

end FuzzyLogic
