import FuzzyLogic.Command.Usage
import FuzzyLogic.Text.Digit

/-!
# Command/Grammar — switches and operands

A grammar has switches, which may stand anywhere, and operands.  A long switch may be cut short as
long as no other starts the same; its value follows as the next argument or after an equals sign.  A
switch of one letter may have its value right behind it, and flags of one letter may be joined.
After `--` every argument is an operand; an argument that looks like a negative number, or that has
a blank in it and no switch in front, is one as well.

`Grammar.scan` follows the arguments from left to right.  What no switch and no operand takes is
kept for the caller.
-/

namespace FuzzyLogic

/-- What a switch does to what the arguments build up. -/
inductive Effect (σ : Type)
  | help
  | flag (set : σ → Except UsageFault σ)
  | value (set : String → σ → Except UsageFault σ)

/-- A switch under all its names. -/
structure Switch (σ : Type) where
  names : List String
  effect : Effect σ

namespace Switch

variable {σ : Type}

/-- How messages call a switch. -/
def label (s : Switch σ) : String := "/".intercalate s.names

/-- Whether a value belongs to a switch. -/
def takesValue (s : Switch σ) : Bool :=
  match s.effect with
  | .value _ => true
  | _ => false

end Switch

/-- Which operands a grammar has. -/
inductive OperandRule
  | none
  | one (name : String)
  /-- A first operand, with all arguments that follow. -/
  | rest
  deriving DecidableEq

/-- Switches and operands. -/
structure Grammar (σ : Type) where
  switches : List (Switch σ)
  operands : OperandRule

/-- The value that stands in the same argument as its switch. -/
inductive Attached
  | nothing
  /-- After an equals sign. -/
  | assigned (value : List Char)
  /-- Right behind a letter, which may be further letters. -/
  | joined (value : List Char)

/-- How an argument reads. -/
inductive Reading (σ : Type)
  | operand
  /-- A switch that the grammar does not have. -/
  | unknown
  | switch (s : Switch σ) (attached : Attached)
  /-- The mark after which all are operands. -/
  | separator

namespace Grammar

variable {σ : Type}

/-! ## Reading one argument -/

/-- All names of switches, in order. -/
def named (g : Grammar σ) : List (List Char × Switch σ) :=
  g.switches.flatMap fun s => s.names.map fun name => (name.toList, s)

/-- The switch of a name. -/
def find? (g : Grammar σ) (name : List Char) : Option (Switch σ) :=
  (g.named.find? (·.1 == name)).map (·.2)

/-- An argument cut at its first equals sign. -/
def cutAtEquals (cs : List Char) : List Char × Option (List Char) :=
  match cs.dropWhile (· != '=') with
  | [] => (cs, none)
  | _ :: value => (cs.takeWhile (· != '='), some value)

/-- What a value after an equals sign, if any, is attached as. -/
def assignedOf : Option (List Char) → Attached
  | some value => .assigned value
  | none => .nothing

/-- The switches that an argument may mean by being cut short or by its first letter. -/
def candidates (g : Grammar σ) (cs : List Char) : List (List Char × Switch σ × Attached) :=
  match cs with
  | '-' :: '-' :: _ =>
    let (start, value?) := cutAtEquals cs
    (g.named.filter fun e => start.isPrefixOf e.1).map fun e => (e.1, e.2, assignedOf value?)
  | _ =>
    (g.named.filter fun e => e.1 == cs.take 2).map fun e => (e.1, e.2, .joined (cs.drop 2))

/-- Whether an argument is a negative number: digits, perhaps with a point before the last of them,
after a minus sign, and perhaps a line feed at the end. -/
def isNegativeNumber (cs : List Char) : Bool :=
  let isDigit c := (Text.decimalValue? c).isSome
  match cs with
  | '-' :: rest =>
    let body := if rest.getLast? = some '\n' then rest.dropLast else rest
    match body.dropWhile isDigit with
    | [] => !body.isEmpty
    | '.' :: places => !places.isEmpty && places.all isDigit
    | _ => false
  | _ => false

/-- Reads an argument. -/
def read (g : Grammar σ) (argument : String) : Except UsageFault (Reading σ) :=
  let cs := argument.toList
  if cs.head? != some '-' || cs.length = 1 then .ok .operand
  else
    match g.find? cs with
    | some s => .ok (.switch s .nothing)
    | none =>
      let (name, value?) := cutAtEquals cs
      match value?, g.find? name with
      | some value, some s => .ok (.switch s (.assigned value))
      | _, _ =>
        match g.candidates cs with
        | [(_, s, attached)] => .ok (.switch s attached)
        | [] => .ok (if isNegativeNumber cs || cs.contains ' ' then .operand else .unknown)
        | several => .error (.ambiguous argument (several.map fun e => String.ofList e.1))

/-- Reads all arguments. -/
def readAll (g : Grammar σ) : List String → Except UsageFault (List (String × Reading σ))
  | [] => .ok []
  | argument :: rest =>
    if argument = "--" then
      .ok ((argument, .separator) :: rest.map fun operand => (operand, .operand))
    else do
      let reading ← g.read argument
      return (argument, reading) :: (← g.readAll rest)

/-! ## Joined switches -/

/-- What one argument asks for: flags, then perhaps a switch with a value, which may be the next
argument, or letters that are no switches. -/
structure Demand (σ : Type) where
  flags : List (Switch σ)
  valued? : Option (Switch σ × Option String)
  leftover? : Option String

/-- What follows a letter: a value after an equals sign, or more. -/
def behindLetter : List Char → Attached
  | [] => .nothing
  | '=' :: value => .assigned value
  | more => .joined more

/-- How many characters are attached. -/
def attachedLength : Attached → Nat
  | .nothing => 0
  | .assigned value => value.length
  | .joined value => value.length

theorem attachedLength_behindLetter (cs : List Char) :
    attachedLength (behindLetter cs) ≤ cs.length := by
  unfold behindLetter
  split <;> simp [attachedLength]

/-- What a switch with its attachment asks for. -/
def demand (g : Grammar σ) (s : Switch σ) (attached : Attached) : Except UsageFault (Demand σ) :=
  match attached with
  | .nothing => .ok (if s.takesValue then ⟨[], some (s, none), none⟩ else ⟨[s], none, none⟩)
  | .assigned value =>
    if s.takesValue then .ok ⟨[], some (s, some (String.ofList value)), none⟩
    else .error (.ignoredValue s.label (String.ofList value))
  | .joined [] => .ok ⟨[s], none, none⟩
  | .joined (c :: more) =>
    if s.takesValue then .ok ⟨[], some (s, some (String.ofList (c :: more))), none⟩
    else if c = '-' then .error (.ignoredValue s.label (String.ofList (c :: more)))
    else
      match g.find? ['-', c] with
      | none => .ok ⟨[s], none, some (String.ofList ('-' :: c :: more))⟩
      | some t =>
        have _hle := attachedLength_behindLetter more
        (g.demand t (behindLetter more)).map fun d => { d with flags := s :: d.flags }
termination_by attachedLength attached
decreasing_by exact Nat.lt_succ_of_le _hle

/-! ## Following the arguments -/

/-- What has been built up, the operands taken, and what nothing took. -/
structure Progress (σ : Type) where
  state : σ
  operands : List String
  extras : List String

namespace Progress

/-- Keeps an argument that nothing takes. -/
def extra (p : Progress σ) (argument : String) : Progress σ :=
  { p with extras := p.extras ++ [argument] }

end Progress

/-- Does what a switch does. -/
def perform (s : Switch σ) (value : String) (state : σ) : Except Halt σ :=
  match s.effect with
  | .help => .error .help
  | .flag set => (set state).mapError .refused
  | .value set => (set value state).mapError .refused

/-- Does what an argument asks for, given the argument after it. -/
def satisfy (p : Progress σ) (d : Demand σ) (next? : Option String) :
    Except Halt (Progress σ) := do
  let value? ← match d.valued?, next? with
    | none, _ => pure none
    | some (s, some value), _ => pure (some (s, value))
    | some (s, none), some value => pure (some (s, value))
    | some (s, none), none => throw (.refused (.missingValue s.label))
  let state ← d.flags.foldlM (fun state s => perform s "" state) p.state
  let state ← match value? with
    | some (s, value) => perform s value state
    | none => pure state
  return { p with state, extras := p.extras ++ d.leftover?.toList }

/-- Takes one argument, given what follows it: how many more arguments are taken with it. -/
def take (g : Grammar σ) (argument : String) (reading : Reading σ)
    (rest : List (String × Reading σ)) (p : Progress σ) : Except Halt (Progress σ × Nat) :=
  match reading with
  | .separator =>
    match g.operands, p.operands, rest with
    | .one _, [], (operand, _) :: _ => .ok ({ p with operands := [operand] }, 1)
    | .rest, [], _ :: _ => .ok ({ p with operands := argument :: rest.map (·.1) }, rest.length)
    | _, _, _ => .ok (p.extra argument, 0)
  | .operand =>
    match g.operands, p.operands with
    | .one _, [] =>
      match rest with
      | (_, .separator) :: _ => .ok ({ p with operands := [argument] }, 1)
      | _ => .ok ({ p with operands := [argument] }, 0)
    | .rest, [] => .ok ({ p with operands := argument :: rest.map (·.1) }, rest.length)
    | _, _ => .ok (p.extra argument, 0)
  | .unknown => .ok (p.extra argument, 0)
  | .switch s attached => do
    let d ← (g.demand s attached).mapError .refused
    match d.valued?, rest with
    | some (_, none), (value, .operand) :: _ => return (← satisfy p d (some value), 1)
    | _, _ => return (← satisfy p d none, 0)

/-- Follows arguments that have been read. -/
def scan (g : Grammar σ) (arguments : List (String × Reading σ)) (p : Progress σ) :
    Except Halt (Progress σ) :=
  match arguments with
  | [] => .ok p
  | (argument, reading) :: rest => do
    let (q, more) ← g.take argument reading rest p
    g.scan (rest.drop more) q
termination_by arguments.length
decreasing_by simp only [List.length_cons, List.length_drop]; omega

/-- Follows arguments from a state. -/
def parse (g : Grammar σ) (arguments : List String) (state : σ) :
    Except Halt (Progress σ) := do
  let readings ← (g.readAll arguments).mapError .refused
  let p ← g.scan readings ⟨state, [], []⟩
  match g.operands, p.operands with
  | .one name, [] => throw (.refused (.missingOperand name))
  | _, _ => return p

end Grammar

end FuzzyLogic
