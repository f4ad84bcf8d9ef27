import FuzzyLogic.Number
import FuzzyLogic.Text.Quoted

/-!
# Text/Document — reports for other programs

A document is a tree of texts, numbers, lists and records.  It is written in the notation that most
programs read, a level of nesting per indentation, and in ASCII: any other character is written by
its codes of four hexadecimal digits, two codes for a character beyond the first sixteen bits.
-/

namespace FuzzyLogic

/-- A report for another program. -/
inductive Document
  | text (s : String)
  | truth (b : Bool)
  | count (n : Nat)
  | number (x : Number)
  | list (items : List Document)
  | record (fields : List (String × Document))

namespace Document

/-! ## Texts -/

/-- A code of four hexadecimal digits. -/
def code (n : Nat) : List Char := '\\' :: 'u' :: Text.hexadecimal 4 n

/-- The codes of a character. -/
def codes (c : Char) : List Char :=
  let n := c.toNat
  if n < 0x10000 then code n
  else code (0xD800 + (n - 0x10000) / 0x400) ++ code (0xDC00 + (n - 0x10000) % 0x400)

/-- A character of a text. -/
def writtenChar (c : Char) : List Char :=
  if c = '"' || c = '\\' then ['\\', c]
  else if c = '\n' then ['\\', 'n']
  else if c = '\r' then ['\\', 'r']
  else if c = '\t' then ['\\', 't']
  else if c = '\x08' then ['\\', 'b']
  else if c = '\x0c' then ['\\', 'f']
  else if ' ' ≤ c && c ≤ '~' then [c]
  else codes c

/-- A text between double quotes. -/
def writtenText (s : String) : String :=
  String.ofList ('"' :: (s.toList.flatMap writtenChar ++ ['"']))

/-- A number; what is no finite double is named, and a fraction is a text. -/
def writtenNumber : Number → String
  | .float x =>
    match x.exactText with
    | "nan" => "NaN"
    | "inf" => "Infinity"
    | "-inf" => "-Infinity"
    | shown => shown
  | .int n => toString n
  | .ratio q => writtenText (toString q.num ++ if q.den = 1 then "" else "/" ++ toString q.den)

/-! ## Layout -/

/-- Blanks in front of a line at a depth. -/
def indentation (depth : Nat) : String := String.ofList (List.replicate (2 * depth) ' ')

/-- Items on lines of their own between brackets. -/
def block (opening closing : String) (depth : Nat) (items : List String) : String :=
  if items.isEmpty then opening ++ closing
  else
    let lead := "\n" ++ indentation (depth + 1)
    opening ++ lead ++ ("," ++ lead).intercalate items ++ "\n" ++ indentation depth ++ closing

mutual

/-- A document at a depth. -/
def writtenAt (depth : Nat) : Document → String
  | text s => writtenText s
  | truth b => if b then "true" else "false"
  | count n => toString n
  | number x => writtenNumber x
  | list items => block "[" "]" depth (writtenItems (depth + 1) items)
  | record fields => block "\x7b" "\x7d" depth (writtenFields (depth + 1) fields)

/-- Some items at a depth. -/
def writtenItems (depth : Nat) : List Document → List String
  | [] => []
  | d :: rest => writtenAt depth d :: writtenItems depth rest

/-- Some fields at a depth. -/
def writtenFields (depth : Nat) : List (String × Document) → List String
  | [] => []
  | (name, d) :: rest =>
    (writtenText name ++ ": " ++ writtenAt depth d) :: writtenFields depth rest

end

/-- A document as text. -/
def written (d : Document) : String := writtenAt 0 d

/-! ## Printing -/

mutual

/-- The numbers in a document. -/
def numbers : Document → List Number
  | number x => [x]
  | list items => itemNumbers items
  | record fields => fieldNumbers fields
  | _ => []

/-- The numbers in some items. -/
def itemNumbers : List Document → List Number
  | [] => []
  | d :: rest => numbers d ++ itemNumbers rest

/-- The numbers in some fields. -/
def fieldNumbers : List (String × Document) → List Number
  | [] => []
  | (_, d) :: rest => numbers d ++ fieldNumbers rest

end

/-- A document as it is printed, if no number in it has too many digits. -/
def printed (d : Document) : Except Fault String := do
  d.numbers.forM Number.checkDigits
  return d.written ++ "\n"

end Document

end FuzzyLogic
