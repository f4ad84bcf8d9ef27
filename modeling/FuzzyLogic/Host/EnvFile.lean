import FuzzyLogic.Settings.Environment
import FuzzyLogic.Text.Blank

/-!
# Host/EnvFile — files that set variables

A file is a sequence of lines `NAME=VALUE`, each perhaps after the word `export`.  A value is
written between single quotes, between double quotes, where more escapes are known, or bare, where
it ends at the line end or at a hash sign after white space.  A name alone, a comment and an empty
line set nothing.  A quoted value may run over several lines.

A line that is none of these is left out and reported by its number.
-/

namespace FuzzyLogic.EnvFile

/-- What one line of a file says. -/
inductive Statement
  | nothing
  /-- A name, and its value as written. -/
  | binding (name : String) (value : Option String)
  /-- No statement at all. -/
  | malformed (line : Nat)
  deriving DecidableEq

/-! ## Characters -/

/-- White space within a line. -/
def isInlineBlank (c : Char) : Bool := Text.isBlank c && c != '\n'

/-- What follows white space within a line. -/
def skipInline (cs : List Char) : List Char := cs.dropWhile isInlineBlank

/-- Whether a character may stand in a name that is not quoted. -/
def isNameChar (c : Char) : Bool := c != '=' && c != '#' && !Text.isBlank c

/-- All line ends as line feeds. -/
def unifyLineEnds : List Char → List Char
  | '\r' :: '\n' :: rest => '\n' :: unifyLineEnds rest
  | '\r' :: rest => '\n' :: unifyLineEnds rest
  | c :: rest => c :: unifyLineEnds rest
  | [] => []

/-! ## Parts of a line

Each part gives what it reads and what follows it; a refusal gives what it stopped at. -/

/-- What follows the word `export` and white space, if they are there. -/
def skipExport (cs : List Char) : List Char :=
  match cs with
  | 'e' :: 'x' :: 'p' :: 'o' :: 'r' :: 't' :: c :: rest =>
    if isInlineBlank c then skipInline rest else cs
  | _ => cs

/-- The name at the start; none before a comment. -/
def readName (cs : List Char) : Except (List Char) (Option String × List Char) :=
  match cs with
  | '#' :: _ => .ok (none, cs)
  | '\'' :: rest =>
    let name := rest.takeWhile (· != '\'')
    match name, rest.dropWhile (· != '\'') with
    | _ :: _, _ :: after => .ok (some (String.ofList name), after)
    | _, _ => .error cs
  | _ =>
    match cs.takeWhile isNameChar with
    | [] => .error cs
    | name => .ok (some (String.ofList name), cs.dropWhile isNameChar)

/-- What stands before the closing quote, and what follows it.  A quote after a backslash closes
only if no later quote does. -/
def beforeQuote (quote : Char) : List Char → Option (List Char × List Char)
  | [] => none
  | [c] => if c = quote then some ([], []) else none
  | c :: d :: rest =>
    if c = quote then some ([], d :: rest)
    else if c = '\\' && d = quote then
      match beforeQuote quote rest with
      | some (content, after) => some (c :: d :: content, after)
      | none => some ([c], rest)
    else (beforeQuote quote (d :: rest)).map fun (content, after) => (c :: content, after)

/-- Replaces a backslash and the character after it where this pair has a meaning. -/
def unescape (meaning : Char → Option Char) : List Char → List Char
  | [] => []
  | [c] => [c]
  | c :: d :: rest =>
    match if c = '\\' then meaning d else none with
    | some x => x :: unescape meaning rest
    | none => c :: unescape meaning (d :: rest)

/-- The escapes between single quotes. -/
def singleEscape : Char → Option Char
  | '\\' => some '\\'
  | '\'' => some '\''
  | _ => none

/-- The escapes between double quotes. -/
def doubleEscape : Char → Option Char
  | '\\' => some '\\'
  | '\'' => some '\''
  | '"' => some '"'
  | 'a' => some '\x07'
  | 'b' => some '\x08'
  | 'f' => some '\x0c'
  | 'n' => some '\n'
  | 'r' => some '\r'
  | 't' => some '\t'
  | 'v' => some '\x0b'
  | _ => none

/-- What stands before white space and a hash sign. -/
def beforeComment : List Char → List Char
  | [] => []
  | c :: rest =>
    if Text.isBlank c && (rest.dropWhile Text.isBlank).head? == some '#' then []
    else c :: beforeComment rest

/-- The value at the start. -/
def readValue (cs : List Char) : Except (List Char) (List Char × List Char) :=
  match cs with
  | '\'' :: rest =>
    match beforeQuote '\'' rest with
    | some (content, after) => .ok (unescape singleEscape content, after)
    | none => .error cs
  | '"' :: rest =>
    match beforeQuote '"' rest with
    | some (content, after) => .ok (unescape doubleEscape content, after)
    | none => .error cs
  | _ => .ok (Text.trimEnd (beforeComment (cs.takeWhile (· != '\n'))), cs.dropWhile (· != '\n'))

/-- What follows a comment, if there is one. -/
def skipComment (cs : List Char) : List Char :=
  match skipInline cs with
  | '#' :: rest => rest.dropWhile (· != '\n')
  | _ => cs

/-- What follows the line end, which must come next. -/
def endLine (cs : List Char) : Except (List Char) (List Char) :=
  match skipInline cs with
  | [] => .ok []
  | '\n' :: rest => .ok rest
  | _ => .error cs

/-! ## Lines -/

/-- The value after an equals sign, if there is one. -/
def readAssigned (cs : List Char) : Except (List Char) (Option String × List Char) :=
  match skipInline cs with
  | '=' :: rest => do
    let (value, after) ← readValue (skipInline rest)
    return (some (String.ofList value), after)
  | after => .ok (none, after)

/-- The statement that starts with a character that is no white space, and what follows its line. -/
def readStatement (cs : List Char) : Except (List Char) (Statement × List Char) := do
  let (name?, afterName) ← readName (skipExport cs)
  let (value, afterValue) ← readAssigned afterName
  let after ← endLine (skipComment afterValue)
  return (match name? with | some name => .binding name value | none => .nothing, after)

/-- The first statement of a text whose first line has a number, and what follows its line. -/
def nextStatement (line : Nat) (cs : List Char) : Statement × List Char :=
  match cs.dropWhile Text.isBlank with
  | [] => (.nothing, [])
  | start =>
    match readStatement start with
    | .ok found => found
    | .error stop => (.malformed line, (stop.dropWhile (· != '\n')).drop 1)

/-- The statements of a text.  Every statement uses up some of it. -/
def statementsFrom (line : Nat) (cs : List Char) : List Statement :=
  if cs.isEmpty then []
  else
    let (statement, rest) := nextStatement line cs
    if rest.length < cs.length then
      statement :: statementsFrom (line + (cs.count '\n' - rest.count '\n')) rest
    else [statement]
termination_by cs.length

/-- The statements of a file. -/
def statements (text : String) : List Statement := statementsFrom 1 (unifyLineEnds text.toList)

end FuzzyLogic.EnvFile
