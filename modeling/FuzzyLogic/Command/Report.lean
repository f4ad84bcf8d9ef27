import FuzzyLogic.Command.Invocation
import FuzzyLogic.Formula.Valuation
import FuzzyLogic.Log.Severity

/-!
# Command/Report — what commands find out

Each command gives a report, and records for the log.  A mistake in an expression or in its degrees
is a report; any other fault stops the command.
-/

namespace FuzzyLogic

/-- How a command ends. -/
inductive ExitCode
  | success
  /-- A mistake in an expression or in its degrees. -/
  | mistake
  /-- A mistake in the arguments or in the settings. -/
  | misuse
  deriving DecidableEq

/-- The number of an exit code. -/
def ExitCode.number : ExitCode → Nat
  | .success => 0
  | .mistake => 1
  | .misuse => 2

/-- A formula under one of several operation sets. -/
structure Comparison where
  name : String
  opset : Opset
  valuation : Valuation

/-- What a command finds out. -/
inductive Report
  | evaluation (compiled : Compiled) (opset : Opset) (valuation : Valuation)
  | comparison (compiled : Compiled) (rows : List Comparison)
  | formula (compiled : Compiled)
  | listing (opsets : List (String × Opset))
  | failure (fault : Fault) (code : ExitCode)

namespace Report

/-- How a command with a report ends. -/
def code : Report → ExitCode
  | failure _ code => code
  | _ => .success

end Report

/-- A record for the log. -/
structure LogRecord where
  source : String
  severity : Log.Severity
  message : String

namespace Report

/-! ## Records -/

/-- The record of a formula that has been compiled. -/
def compiledRecord (c : Compiled) : LogRecord :=
  ⟨"fuzzy_systems.compiler", .debug,
    "Compiled " ++ Text.quoted c.source ++ " -> " ++ c.canonical ++ " (names: " ++
      Text.roundList (c.names.map Text.quoted) ++ ")"⟩

/-- The record of an evaluation that has failed. -/
def failureRecord (f : Fault) : LogRecord :=
  ⟨"fuzzy_systems.cli", .debug, "eval failed: " ++ f.message⟩

/-- The record of an evaluation. -/
def evaluationRecord (o : Opset) (v : Valuation) : LogRecord :=
  ⟨"fuzzy_systems.cli", .info,
    v.tree.render ++ " = " ++ v.value.text ++ " under " ++ o.name⟩

/-- The records of compiling a text. -/
def compileRecords (source : String) : List LogRecord :=
  match Compiled.ofSource source with
  | .ok c => [compiledRecord c]
  | .error _ => []

/-! ## Commands -/

/-- A mistake as a report; any other fault goes on. -/
def ofMistake (f : Fault) : Except Fault Report :=
  if f.isMistake then .ok (.failure f .mistake) else .error f

/-- The degrees of names as numbers. -/
def numbers (assignments : List (String × Binary64)) : List (String × Number) :=
  assignments.map fun e => (e.1, .float e.2)

/-- Evaluates an expression under the operation set of a name. -/
def evaluate (r : Registry) (name expression : String) (assignments : List (String × Binary64))
    (labels : Bool) : Except Fault Report :=
  match r.get? name with
  | none => .ok (.failure (.unknownOperationSet name r.names) .misuse)
  | some o =>
    match do
      let c ← Compiled.ofSource expression
      let tree ← c.assign (numbers assignments) labels o
      return (c, tree) with
    | .error f => ofMistake f
    | .ok (c, tree) => (tree.evaluate).map fun value => .evaluation c o ⟨tree, value⟩

/-- The records of an evaluation and its report. -/
def evaluateRecords (expression : String) : Report → List LogRecord
  | failure _ .misuse => []
  | failure f _ => compileRecords expression ++ [failureRecord f]
  | evaluation c o v => [compiledRecord c, evaluationRecord o v]
  | _ => []

/-- The rows of a comparison under operation sets, up to the first mistake. -/
def compareRows (r : Registry) (c : Compiled) (assignments : List (String × Binary64))
    (labels : Bool) : List String → Except Fault (Except Fault (List Comparison))
  | [] => .ok (.ok [])
  | name :: rest => do
    let o ← r.require name
    match c.assign (numbers assignments) labels o with
    | .error f => if f.isMistake then return .error f else throw f
    | .ok tree =>
      let value ← tree.evaluate
      let others ← compareRows r c assignments labels rest
      return others.map (⟨name, o, ⟨tree, value⟩⟩ :: ·)

/-- Evaluates an expression under every operation set. -/
def compare (r : Registry) (expression : String) (assignments : List (String × Binary64))
    (labels : Bool) : Except Fault Report :=
  match Compiled.ofSource expression with
  | .error f => ofMistake f
  | .ok c =>
    (compareRows r c assignments labels r.names).map fun
      | .ok rows => .comparison c rows
      | .error f => .failure f .mistake

/-- Compiles an expression. -/
def check (expression : String) : Except Fault Report :=
  match Compiled.ofSource expression with
  | .error f => ofMistake f
  | .ok c => .ok (.formula c)

/-- Lists the operation sets. -/
def list (r : Registry) : Except Fault Report :=
  (r.names.mapM fun name => (r.require name).map fun o => (name, o)).map .listing

end Report

end FuzzyLogic
