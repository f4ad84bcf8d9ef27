/-!
# Log/Severity — how grave a record is

Severities are numbers; five of them, and the least, have names.  A record goes through when it is
positive and at least as grave as a threshold.
-/

namespace FuzzyLogic.Log

/-- How grave a record is: the higher, the graver. -/
structure Severity where
  rank : Int
  deriving DecidableEq

namespace Severity

def unset : Severity := ⟨0⟩
def debug : Severity := ⟨10⟩
def info : Severity := ⟨20⟩
def warning : Severity := ⟨30⟩
def error : Severity := ⟨40⟩
def critical : Severity := ⟨50⟩

/-- The severity that a capitalised name stands for: two severities have two names. -/
def named? : String → Option Severity
  | "NOTSET" => some unset
  | "DEBUG" => some debug
  | "INFO" => some info
  | "WARN" => some warning
  | "WARNING" => some warning
  | "ERROR" => some error
  | "CRITICAL" => some critical
  | "FATAL" => some critical
  | _ => none

/-- The severity of a capitalised name; unknown names mean information. -/
def ofName (name : String) : Severity := (named? name).getD info

/-- The name of a severity, or its number. -/
def label (s : Severity) : String :=
  if s = unset then "NOTSET"
  else if s = debug then "DEBUG"
  else if s = info then "INFO"
  else if s = warning then "WARNING"
  else if s = error then "ERROR"
  else if s = critical then "CRITICAL"
  else "Level " ++ toString s.rank

theorem named?_label {s : Severity} {name : String} (h : named? name = some s) :
    named? s.label = some s := by
  unfold named? at h
  split at h <;> simp only [Option.some.injEq, reduceCtorEq] at h <;> subst h <;> decide

/-- The escape sequence that a terminal shows a severity in. -/
def colour (s : Severity) : String :=
  if s = debug then "\x1b[96m"
  else if s = info then "\x1b[92m"
  else if s = warning then "\x1b[93m"
  else if s = error then "\x1b[91m"
  else if s = critical then "\x1b[1m\x1b[91m"
  else "\x1b[97m"

/-- The name of a severity as a terminal shows it. -/
def coloured (s : Severity) : String := s.colour ++ s.label ++ "\x1b[0m"

/-- Whether a record passes a threshold. -/
def passes (s threshold : Severity) : Bool :=
  decide (0 < s.rank) && decide (threshold.rank ≤ s.rank)

end Severity

end FuzzyLogic.Log
