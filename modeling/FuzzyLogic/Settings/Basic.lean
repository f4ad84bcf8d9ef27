import FuzzyLogic.Log.Severity
import FuzzyLogic.Opset.Registry
import FuzzyLogic.Settings.Environment

/-!
# Settings/Basic — what the command line is set to

Five settings come from variables of the environment, each with a default.  The core of the library
never asks for them.
-/

namespace FuzzyLogic

/-- The settings of the command line. -/
structure Settings where
  /-- The name of the log's threshold, capitalised. -/
  level : String
  logFolder : String
  logToFile : Bool
  /-- The name of the operation set that is used when none is given. -/
  defaultOpset : String
  /-- Whether operands show by name. -/
  labelAtoms : Bool
  deriving DecidableEq

namespace Settings

/-- Whether the text of a switch says yes. -/
def isYes (text : String) : Bool :=
  ["1", "true", "yes", "on"].contains (Text.lower (Text.strip text))

/-- The value of a variable, or a default. -/
def valueOf (e : Environment) (name standard : String) : String := (e.get? name).getD standard

/-- The settings of an environment. -/
def ofEnvironment (e : Environment) : Settings where
  level := Text.upper (valueOf e "FUZZY_LOG_LEVEL" "INFO")
  logFolder := valueOf e "FUZZY_LOG_DIR" "logs"
  logToFile := isYes (valueOf e "FUZZY_LOG_TO_FILE" "false")
  defaultOpset := Text.lower (Text.strip (valueOf e "FUZZY_DEFAULT_OPSET" "hamacher1"))
  labelAtoms := isYes (valueOf e "FUZZY_LABEL_ATOMS" "true")

/-! ## Validation -/

/-- The names of thresholds that settings may hold. -/
def allowedLevels : List String := ["DEBUG", "INFO", "WARNING", "ERROR", "CRITICAL"]

/-- What is wrong with settings. -/
inductive Defect
  | unknownLevel (level : String)
  | unknownOpset (name : String) (available : List String)
  deriving DecidableEq

/-- The wording of a defect. -/
def Defect.message : Defect → String
  | .unknownLevel level =>
    "INVALID: FUZZY_LOG_LEVEL=" ++ level ++ ". Allowed: " ++ Fault.commaList allowedLevels
  | .unknownOpset name available =>
    "INVALID: FUZZY_DEFAULT_OPSET=" ++ name ++
      " is not a registered operation set. Available: " ++ Fault.commaList available

/-- What is wrong with settings, in the order of the report. -/
def defects (r : Registry) (s : Settings) : List Defect :=
  (if allowedLevels.contains s.level then [] else [.unknownLevel s.level]) ++
    (if (r.get? s.defaultOpset).isSome then [] else [.unknownOpset s.defaultOpset r.names])

/-- Whether nothing is wrong with settings. -/
def isValid (r : Registry) (s : Settings) : Bool := (s.defects r).isEmpty

/-- The advice that settings call for. -/
def warnings (s : Settings) : List String :=
  if s.logToFile && s.logFolder.isEmpty then
    ["FUZZY_LOG_TO_FILE=true but FUZZY_LOG_DIR is empty; using 'logs'"]
  else []

/-- The report on settings: what is wrong, then advice. -/
def messages (r : Registry) (s : Settings) : List String :=
  (s.defects r).map (·.message) ++ s.warnings

theorem isSome_get?_of_isValid {r : Registry} {s : Settings} (h : s.isValid r) :
    (r.get? s.defaultOpset).isSome := by
  unfold isValid defects at h
  cases hs : (r.get? s.defaultOpset).isSome with
  | true => rfl
  | false => simp [hs] at h

/-! ## Views -/

/-- The threshold of the log. -/
def threshold (s : Settings) : Log.Severity := .ofName s.level

/-- How a summary writes a switch. -/
def switchText (b : Bool) : String := if b then "True" else "False"

/-- The settings, one a line. -/
def summary (s : Settings) : String :=
  "\n".intercalate
    ["Fuzzy Systems Configuration",
      "  Log level:      " ++ s.level,
      "  Log to file:    " ++ switchText s.logToFile ++ " (" ++
        (if s.logFolder.isEmpty then "logs" else s.logFolder) ++ ")",
      "  Default opset:  " ++ s.defaultOpset,
      "  Label atoms:    " ++ switchText s.labelAtoms]

end Settings

end FuzzyLogic
