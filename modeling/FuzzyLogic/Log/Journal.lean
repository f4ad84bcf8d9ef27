import FuzzyLogic.Folder
import FuzzyLogic.Log.Severity
import FuzzyLogic.Text.LetterCase

/-!
# Log/Journal — where records go

A journal is set up with a folder, a threshold, and whether to keep a file.  Setting it up opens a
handler for the console and, if asked, one for a file, after the handlers that were open have been
closed.

There is one object for the journal at a time.  It is made when first asked for and set up once
(`Journal.construct`); asking for the journal hands out one and the same object
(`Journal.ensure`).  Only setting the journal up anew gives up the object for another
(`Journal.setUp`).

Records come from sources.  The journal takes those of its own source and the sources below it;
any other record, and every record before the journal is set up, shows as a bare line on the console
from warnings on.
-/

namespace FuzzyLogic.Log

/-- What is asked of a journal. -/
structure Request where
  folder : String
  /-- The name of the threshold, in whatever case. -/
  level : String
  toFile : Bool

namespace Request

/-- A journal that keeps no file and shows information. -/
def standard : Request := ⟨"logs", "INFO", false⟩

/-- The folder, in its one spelling; the folder of no name is the standard one. -/
def home (r : Request) : String :=
  Text.normalPath (if r.folder.isEmpty then standard.folder else r.folder)

/-- The threshold. -/
def threshold (r : Request) : Severity := .ofName (Text.upper r.level)

end Request

/-- What is put in front of what a journal writes, and the day that its file is named for. -/
structure Clock where
  day : String
  console : String
  file : String

/-- What a handler writes to. -/
inductive Sink
  | console
  | file (path : String)
  deriving DecidableEq

/-- An open place for records, with the number of the setup that opened it. -/
structure Handler where
  setup : Nat
  sink : Sink
  deriving DecidableEq

/-- The setup in force: the object that was set up, and what was asked. -/
structure Setup where
  object : Nat
  request : Request

/-- A journal: its object, its setup, its handlers, those it has closed, and its files. -/
structure Journal where
  /-- The object for the journal. -/
  instance? : Option Nat
  /-- Whether that object has been set up. -/
  initialized : Bool
  /-- The object that is handed out. -/
  current? : Option Nat
  setup? : Option Setup
  threshold : Severity
  handlers : List Handler
  closed : List Handler
  /-- How many objects there have been. -/
  objects : Nat
  /-- How many setups there have been. -/
  count : Nat
  folder : Folder

namespace Journal

/-- A journal that nobody has asked for. -/
def fresh : Journal where
  instance? := none
  initialized := false
  current? := none
  setup? := none
  threshold := .unset
  handlers := []
  closed := []
  objects := 0
  count := 0
  folder := .empty

/-! ## Setting up -/

/-- The file of a request on a day. -/
def path (clock : Clock) (r : Request) : String :=
  Text.joinPath r.home ("fuzzy_" ++ clock.day ++ ".log")

/-- What the handlers of a request write to. -/
def sinks (clock : Clock) (r : Request) : List Sink :=
  .console :: if r.toFile then [.file (path clock r)] else []

/-- Makes the file of a sink, if it has one. -/
def touch (f : Folder) : Sink → Folder
  | .console => f
  | .file path => f.append path ""

/-- Opens the handlers of a request, in place of those that are open. -/
def reopen (clock : Clock) (r : Request) (j : Journal) : Journal :=
  { j with
    threshold := r.threshold
    handlers := (sinks clock r).map (⟨j.count, ·⟩)
    closed := j.closed ++ j.handlers
    count := j.count + 1
    folder := (sinks clock r).foldl touch j.folder }

/-- The object for the journal, made if there is none. -/
def allocate (j : Journal) : Nat × Journal :=
  match j.instance? with
  | some object => (object, j)
  | none => (j.objects, { j with instance? := some j.objects, objects := j.objects + 1 })

/-- Makes the object for the journal, and sets it up unless it has been. -/
def construct (clock : Clock) (r : Request) (j : Journal) : Journal :=
  let (object, made) := j.allocate
  if made.initialized then made
  else { made.reopen clock r with initialized := true, setup? := some ⟨object, r⟩ }

/-- Hands out the object for the journal from now on. -/
def handOut (j : Journal) : Journal := { j with current? := j.instance? }

/-- Sets up a journal unless an object is handed out. -/
def ensure (clock : Clock) (r : Request) (j : Journal) : Journal :=
  if j.current?.isSome then j else (j.construct clock r).handOut

/-- Gives up the object for the journal. -/
def reset (j : Journal) : Journal := { j with initialized := false, instance? := none }

/-- Sets up a journal anew. -/
def setUp (clock : Clock) (r : Request) (j : Journal) : Journal :=
  (j.reset.construct clock r).handOut

/-! ## Records -/

/-- The source that belongs to the journal. -/
def ownSource : String := "fuzzy_systems"

/-- Whether a source is the journal's or below it. -/
def owns (source : String) : Bool :=
  source == ownSource || (ownSource ++ ".").toList.isPrefixOf source.toList

/-- The threshold for records of a source: warnings, unless the journal says otherwise. -/
def thresholdOf (j : Journal) (source : String) : Severity :=
  if owns source && j.threshold != .unset then j.threshold else .warning

/-- Writes a record to a sink: what the console shows, and the files after it. -/
def emit (clock : Clock) (source : String) (s : Severity) (message : String) :
    String × Folder → Sink → String × Folder
  | (shown, f), .console => (shown ++ clock.console ++ s.coloured ++ " | " ++ message ++ "\n", f)
  | (shown, f), .file path =>
    (shown, f.append path
      (clock.file ++ s.label ++ " | " ++ source ++ " | " ++ message ++ "\n"))

/-- Takes a record: what the console shows, and the journal after it. -/
def record (clock : Clock) (source : String) (s : Severity) (message : String) (j : Journal) :
    String × Journal :=
  if !s.passes (j.thresholdOf source) then ("", j)
  else if owns source && j.setup?.isSome then
    let (shown, folder) :=
      (j.handlers.map (·.sink)).foldl (emit clock source s message) ("", j.folder)
    (shown, { j with folder })
  else (if s.passes .warning then message ++ "\n" else "", j)

/-- A record in short: the name of its severity as a terminal shows it, and its message. -/
def brief (s : Severity) (message : String) : String := s.coloured ++ "|" ++ message

end Journal

end FuzzyLogic.Log
