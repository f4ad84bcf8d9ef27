import FuzzyLogic.Folder
import FuzzyLogic.Settings.Basic

/-!
# Settings/Desk — settings as they are loaded and kept

A desk holds an environment, files, and the settings loaded from them.  Loading reads the file
`.env`, then the file that is named, each only if it is there; what these files set stays set in the
environment.  Settings are loaded at the first request and handed out from then on; reloading
replaces them.
-/

namespace FuzzyLogic

/-- Settings and the name of the file they were loaded with. -/
structure LoadedSettings where
  settings : Settings
  envFile : String
  deriving DecidableEq

/-- An environment, files, and the settings loaded from them. -/
structure Desk where
  environment : Environment
  folder : Folder
  loaded? : Option LoadedSettings

namespace Desk

/-- The file that is always read. -/
def standardFile : String := ".env"

/-- A desk on which nothing has happened. -/
def fresh : Desk := ⟨.empty, .empty, none⟩

/-! ## The surroundings -/

def setVariable (d : Desk) (name value : String) : Desk :=
  { d with environment := d.environment.set name value }

def unsetVariable (d : Desk) (name : String) : Desk :=
  { d with environment := d.environment.unset name }

def writeFile (d : Desk) (path text : String) : Desk :=
  { d with folder := d.folder.write path text }

/-! ## Loading -/

/-- The files to read, the later over the earlier. -/
def filesFor (envFile : String) : List String :=
  if envFile = standardFile then [standardFile] else [standardFile, envFile]

/-- The texts that a loading reads: those of the files that are there. -/
def textsFor (d : Desk) (envFile : String) : List String :=
  (filesFor envFile).filterMap d.folder.read?

/-- Loads settings and keeps them. -/
def load (reader : EnvReader) (d : Desk) (envFile : String) : LoadedSettings × Desk :=
  let environment := (d.textsFor envFile).foldl reader.load d.environment
  let loaded : LoadedSettings := ⟨.ofEnvironment environment, envFile⟩
  (loaded, { d with environment, loaded? := some loaded })

/-- The settings, loaded at the first request. -/
def get (reader : EnvReader) (d : Desk) (envFile : String) : LoadedSettings × Desk :=
  match d.loaded? with
  | some loaded => (loaded, d)
  | none => d.load reader envFile

/-- The settings that are kept, which an operation asks for. -/
def require (d : Desk) (operation : String) : Except Fault LoadedSettings :=
  match d.loaded? with
  | some loaded => .ok loaded
  | none => .error (.missingAttribute "NoneType" operation)

/-- Loads the settings again, with the file of the last time unless another is named. -/
def reload (reader : EnvReader) (d : Desk) (envFile? : Option String) :
    Except Fault (LoadedSettings × Desk) :=
  (d.require "reload").map fun last =>
    d.load reader (match envFile? with
      | some named => if named.isEmpty then last.envFile else named
      | none => last.envFile)

/-- The complaints about the files that a loading reads. -/
def complaints (reader : EnvReader) (d : Desk) (envFile : String) : List String :=
  (d.textsFor envFile).flatMap reader.complaints

end Desk

end FuzzyLogic
