import FuzzyLogic.Decimal.Basic
import FuzzyLogic.Text.Printable

/-!
# Text/Quoted — text between quotes

Quoted text shows where a text ends and what it holds: quotes around it, a backslash before the
quote and itself, and a hexadecimal code for what cannot be printed.  Single quotes are used unless
the text holds single quotes and no double one.
-/

namespace FuzzyLogic.Text

/-- The hexadecimal digits of a number, at least `width` of them. -/
def hexadecimal (width n : Nat) : List Char :=
  let ds := Nat.toDigits 16 n
  List.replicate (width - ds.length) '0' ++ ds

/-- One character between quotes of a kind. -/
def quoteChar (quote c : Char) : List Char :=
  if c = quote || c = '\\' then ['\\', c]
  else if c = '\n' then ['\\', 'n']
  else if c = '\r' then ['\\', 'r']
  else if c = '\t' then ['\\', 't']
  else if isPrintable c then [c]
  else if c.toNat < 0x100 then '\\' :: 'x' :: hexadecimal 2 c.toNat
  else if c.toNat < 0x10000 then '\\' :: 'u' :: hexadecimal 4 c.toNat
  else '\\' :: 'U' :: hexadecimal 8 c.toNat

/-- The quote that suits a text. -/
def quoteFor (cs : List Char) : Char :=
  if cs.contains '\'' && !cs.contains '"' then '"' else '\''

/-- A text between quotes. -/
def quoted (s : String) : String :=
  let cs := s.toList
  let quote := quoteFor cs
  String.ofList (quote :: (cs.flatMap (quoteChar quote) ++ [quote]))

/-- Items between parentheses; a single one has a comma after it. -/
def roundList : List String → String
  | [item] => "(" ++ item ++ ",)"
  | items => "(" ++ ", ".intercalate items ++ ")"

end FuzzyLogic.Text
