import FuzzyLogic.Session.Definition
import FuzzyLogic.Session.Description

/-!
# Session/Call — calls, and sessions of calls

A call applies a function to arguments, which may be calls themselves.  Arguments are evaluated from
left to right, and the first fault ends the call.  A step evaluates one call, reports the value, and
then may store it under a name; later steps run whatever became of it.
-/

namespace FuzzyLogic

/-- A call, or an argument of one. -/
inductive Call
  | reference (name : String)
  | constant (v : Value)
  | classNamed (name : String)
  | define (sketch : ClassSketch)
  | list (items : List Call)
  | map (entries : List (String × Call))
  | apply (f : List Value → Session.Run Value) (args : List Call)

namespace Session

/-! ## Evaluation -/

/-- The value stored under a name. -/
def stored (name : String) : Run Value := do
  match (← get).named.lookup name with
  | some v => return v
  | none => throw (.unknownReference name)

mutual

/-- Evaluates a call. -/
def run : Call → Run Value
  | .reference name => stored name
  | .constant v => return v
  | .classNamed name => classNamed name
  | .define sketch => define sketch
  | .list items => do return .list (← runAll items)
  | .map entries => do return .map (← runEntries entries)
  | .apply f args => do f (← runAll args)

/-- Evaluates calls from left to right. -/
def runAll : List Call → Run (List Value)
  | [] => return []
  | c :: rest => do
    let v ← run c
    return v :: (← runAll rest)

/-- Evaluates the entries of a map in order. -/
def runEntries : List (String × Call) → Run (List (String × Value))
  | [] => return []
  | (key, c) :: rest => do
    let v ← run c
    return (key, v) :: (← runEntries rest)

end

/-! ## Steps -/

/-- A call, and the name its value is stored under. -/
structure Step where
  call : Call
  name : Option String

/-- Evaluates and reports a call, and stores its value. -/
def runStep (step : Step) : Run Description := do
  let v ← run step.call
  let d ← pureRun v.describe
  match step.name with
  | some name => modify fun s => { s with named := (name, v) :: s.named }
  | none => pure ()
  return d

/-- The reports of steps in turn. -/
def runSteps : List Step → StateM Session (List (Except Fault Description))
  | [] => return []
  | step :: rest => do
    let outcome ← (runStep step).run
    return outcome :: (← runSteps rest)

/-- The reports of a whole session. -/
def reports (steps : List Step) : List (Except Fault Description) :=
  ((runSteps steps).run start).1

end Session

end FuzzyLogic
