import FuzzyLogic.Command.Presentation
import FuzzyLogic.Log.Journal
import FuzzyLogic.Settings.Desk

/-!
# Command/Run — a command line from start to end

First the arguments are read, then the settings, then the log is set up, and then the command runs.
Settings that are not valid end the run before the log is set up; a command line without a command
ends it after.
-/

namespace FuzzyLogic

/-- What a run that has come to its end leaves. -/
structure Finished where
  code : ExitCode
  output : String
  /-- What stands on the error stream. -/
  console : String
  /-- The files of the log. -/
  logs : Folder

/-- How a run ends. -/
inductive Outcome
  | noInvocation (reason : NoInvocation)
  | finished (result : Finished)

/-- Where a run takes place. -/
structure Site where
  registry : Registry
  environment : Environment
  folder : Folder
  clock : Log.Clock
  console : Console
  reader : EnvReader

namespace Site

/-! ## Commands -/

/-- Whether operands show by name: the command line decides, else the settings. -/
def labels (s : Settings) (o : Options) : Bool := o.labels?.getD s.labelAtoms

/-- The name of the operation set to evaluate under: the command line decides if it gives one that
is not empty, else the settings. -/
def opsetName (s : Settings) (o : Options) : String :=
  match o.opset? with
  | some name => if name.isEmpty then s.defaultOpset else name
  | none => s.defaultOpset

/-- The report of a command. -/
def report (r : Registry) (s : Settings) : Command → Except Fault Report
  | .eval expression o =>
    Report.evaluate r (opsetName s o) expression o.assignments (labels s o)
  | .compare expression o => Report.compare r expression o.assignments (labels s o)
  | .check expression _ => Report.check expression
  | .opsets _ => Report.list r

/-- The records of a command and its report. -/
def records (found : Report) : Command → List LogRecord
  | .eval expression _ => Report.evaluateRecords expression found
  | .compare expression _ | .check expression _ => Report.compileRecords expression
  | .opsets _ => []

/-- The switches of a command. -/
def options : Command → Options
  | .eval _ o | .compare _ o | .check _ o | .opsets o => o

/-- Runs a command: its report, and what is printed of it. -/
def handle (k : Console) (r : Registry) (s : Settings) (command : Command) :
    Except Fault (Report × String) := do
  let found ← report r s command
  return (found, ← found.printed k (options command).json)

/-! ## Runs -/

/-- The name of the log's threshold: the command line decides, else the settings. -/
def levelName (s : Settings) : Option Verbosity → String
  | some .quiet => "WARNING"
  | some .verbose => "INFO"
  | some .debug => "DEBUG"
  | none => s.level

/-- Takes records: what the console shows, and the journal after them. -/
def recordAll (clock : Log.Clock) (j : Log.Journal) (rs : List LogRecord) :
    String × Log.Journal :=
  rs.foldl (fun (shown, j) r =>
    let (more, next) := j.record clock r.source r.severity r.message
    (shown ++ more, next)) ("", j)

/-- What a reader is told who gives no command. -/
def reminder : String :=
  Style.yellow.apply "Usage: fuzzy-systems \x7beval|compare|check|opsets\x7d --help"

/-- Runs what a command line asks for. -/
def perform (site : Site) (i : Invocation) : Except Fault Finished := do
  let desk : Desk := ⟨site.environment, site.folder, none⟩
  let complaints :=
    String.join ((desk.complaints site.reader Desk.standardFile).map (· ++ "\n"))
  let s := (desk.get site.reader Desk.standardFile).1.settings
  if !s.isValid site.registry then
    let output ← site.console.lines ((s.messages site.registry).map Style.boldRed.apply)
    return ⟨.misuse, output, complaints, .empty⟩
  let journal := Log.Journal.fresh.setUp site.clock
    ⟨s.logFolder, levelName s i.verbosity?, s.logToFile⟩
  match i.command? with
  | none => return ⟨.misuse, ← site.console.lines [reminder], complaints, journal.folder⟩
  | some command =>
    let (found, output) ← handle site.console site.registry s command
    let (shown, after) := recordAll site.clock journal (records found command)
    return ⟨found.code, output, complaints ++ shown, after.folder⟩

/-- Runs a command line. -/
def run (site : Site) (arguments : List String) : Except Fault Outcome :=
  match Invocation.read site.registry arguments with
  | .error reason => .ok (.noInvocation reason)
  | .ok i => (site.perform i).map .finished

end Site

end FuzzyLogic
