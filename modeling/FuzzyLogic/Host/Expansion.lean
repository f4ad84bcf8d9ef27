import FuzzyLogic.Host.EnvFile

/-!
# Host/Expansion — values that refer to variables

In a value, `${NAME}` stands for the value of a variable and `${NAME:-DEFAULT}` for it or, if it is
not set, a default.  Variables are those of the file, as far as it has been read, before those of
the environment.  Every name that a file gives a value is then set, if a process can have such a
variable; of several values of a name the last counts, even if it is none.
-/

namespace FuzzyLogic.EnvFile

/-! ## References -/

/-- A name and a default, and what follows the reference. -/
structure Reference where
  name : List Char
  default? : Option (List Char)
  rest : List Char

/-- The reference whose name starts here. -/
def reference? (cs : List Char) : Option Reference :=
  let isNameEnd c := c == '\x7d' || c == ':'
  let name := cs.takeWhile (!isNameEnd ·)
  match cs.dropWhile (!isNameEnd ·) with
  | ':' :: '-' :: more =>
    match more.dropWhile (· != '\x7d') with
    | _ :: rest => some ⟨name, some (more.takeWhile (· != '\x7d')), rest⟩
    | [] => none
  | '\x7d' :: rest => some ⟨name, none, rest⟩
  | _ => none

/-- A value with its references replaced. -/
def expand (valueOf : String → Option String → String) (cs : List Char) : List Char :=
  match cs with
  | [] => []
  | c :: rest =>
    match if c == '$' && rest.head? == some '\x7b' then reference? (rest.drop 1) else none with
    | some r =>
      if r.rest.length ≤ rest.length then
        (valueOf (String.ofList r.name) (r.default?.map String.ofList)).toList ++
          expand valueOf r.rest
      else c :: expand valueOf rest
    | none => c :: expand valueOf rest
termination_by cs.length

/-! ## Assignments -/

/-- The values that a file has given so far, the last of each name. -/
abbrev Assigned := List (String × Option String)

/-- The value of a reference: what the file has given, else the environment, else the default. -/
def referred (e : Environment) (given : Assigned) (name : String) (default? : Option String) :
    String :=
  match given.lookup name with
  | some value => value.getD ""
  | none => (e.get? name).getD (default?.getD "")

/-- The values given after one more statement. -/
def assign (e : Environment) (given : Assigned) : Statement → Assigned
  | .binding name value =>
    (name, value.map fun v => String.ofList (expand (referred e given) v.toList)) ::
      given.filter (·.1 != name)
  | _ => given

/-- The values that a file gives in an environment. -/
def assigned (e : Environment) (text : String) : Assigned :=
  (statements text).foldl (assign e) []

/-- Whether a process can have a variable of some name and value. -/
def isSettable (name value : String) : Bool :=
  name.toList.all (fun c => c != '=' && c != '\x00') && value.toList.all (· != '\x00')

/-- The environment after a name has been given a value, or none. -/
def setGiven (e : Environment) (name : String) (value : Option String) : Environment :=
  match value.filter (isSettable name) with
  | some v => e.set name v
  | none => e

/-- The environment after a file. -/
def load (e : Environment) (text : String) : Environment :=
  (assigned e text).foldl (fun e given => setGiven e given.1 given.2) e

/-- The numbers of the lines of a file that are left out. -/
def malformedLines (text : String) : List Nat :=
  (statements text).filterMap fun
    | .malformed line => some line
    | _ => none

end FuzzyLogic.EnvFile

namespace FuzzyLogic

/-- The reader of the program. -/
def EnvReader.standard : EnvReader where
  load := EnvFile.load
  complaints text := (EnvFile.malformedLines text).map fun line =>
    "python-dotenv could not parse statement starting at line " ++ toString line

end FuzzyLogic
