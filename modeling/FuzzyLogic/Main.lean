import FuzzyLogic.Command.Run
import FuzzyLogic.Host.Console
import FuzzyLogic.Host.Expansion
import Std.Time.Format

/-!
# Main — the program

Reads the environment, the standard file of settings and the clock, runs the command line, and puts
out what the run leaves: text, log lines and log files.
-/

namespace FuzzyLogic

/-- The variables that settings come from. -/
def settingNames : List String :=
  ["FUZZY_LOG_LEVEL", "FUZZY_LOG_DIR", "FUZZY_LOG_TO_FILE", "FUZZY_DEFAULT_OPSET",
    "FUZZY_LABEL_ATOMS"]

/-- The variables that a file's text may mean: those of the settings, and those it refers to. -/
def mentioned (text : String) : List String :=
  settingNames ++ ((Text.pieces '$' text.toList).filterMap fun piece =>
    match piece with
    | '\x7b' :: rest => (EnvFile.reference? rest).map fun r => String.ofList r.name
    | _ => none)

/-- The variables of a list that are set. -/
def readEnvironment (names : List String) : IO Environment :=
  names.foldlM (fun e name => do
    match ← IO.getEnv name with
    | some value => return e.set name value
    | none => return e) .empty

/-- The text of a file, if it can be read. -/
def readFile? (path : String) : IO (Option String) :=
  try
    return some (← IO.FS.readFile path)
  catch _ => return none

/-- The present day and moment, as log lines start with them. -/
def readClock : IO Log.Clock := do
  let now ← Std.Time.PlainDateTime.now
  return ⟨now.format "uuuuMMdd", now.format "HH:mm:ss" ++ " | ",
    now.format "uuuu-MM-dd HH:mm:ss" ++ " | "⟩

/-- The folder of a path. -/
def parentFolder (path : String) : String :=
  String.ofList ((path.toList.reverse.dropWhile (· != '/')).drop 1).reverse

/-- Puts the lines of a log behind those of earlier runs. -/
def appendFile (path text : String) : IO Unit := do
  let folder := parentFolder path
  if !folder.isEmpty then IO.FS.createDirAll folder
  let file ← IO.FS.Handle.mk path .append
  file.putStr text

/-- Puts out what a finished run leaves. -/
def finish (r : Finished) : IO UInt32 := do
  for (path, text) in r.logs.entries do
    appendFile path text
  IO.eprint r.console
  IO.print r.output
  return r.code.number.toUInt32

/-- Runs a command line where the program stands. -/
def runProgram (arguments : List String) : IO UInt32 := do
  let file? ← readFile? Desk.standardFile
  let site : Site :=
    { registry := .catalogue
      environment := ← readEnvironment (mentioned (file?.getD ""))
      folder := match file? with
        | some text => Folder.empty.write Desk.standardFile text
        | none => .empty
      clock := ← readClock
      console := .standard
      reader := .standard }
  match site.run arguments with
  | .ok (.finished r) => finish r
  | .ok (.noInvocation (.refused refusal)) =>
    IO.eprintln refusal.message
    return ExitCode.misuse.number.toUInt32
  | .ok (.noInvocation (.help program)) =>
    IO.println ("usage: " ++ program ++ " [options] [arguments]")
    return ExitCode.success.number.toUInt32
  | .error fault =>
    IO.eprintln fault.message
    return ExitCode.mistake.number.toUInt32

end FuzzyLogic

def main (arguments : List String) : IO UInt32 := FuzzyLogic.runProgram arguments
