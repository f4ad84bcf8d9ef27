/-!
# Formula/Token — tokens of the formula language

A token is a kind, the text it was written with, and the place of its first character.  The end of
the text is a token of its own, of empty text.
-/

namespace FuzzyLogic

/-- What a token stands for. -/
inductive TokenKind
  | ident
  | number
  | not
  | and
  | or
  | leftParen
  | rightParen
  | stop
  deriving DecidableEq, Repr

namespace TokenKind

/-- Joins two operands. -/
def isBinary : TokenKind → Bool
  | .and | .or => true
  | _ => false

/-- Begins an operand. -/
def startsOperand : TokenKind → Bool
  | .ident | .number | .leftParen | .not => true
  | _ => false

end TokenKind

/-- A token. -/
structure Token where
  kind : TokenKind
  text : String
  position : Nat
  deriving DecidableEq, Repr

namespace Token

/-- The end of a text of some length. -/
def stop (length : Nat) : Token := ⟨.stop, "", length⟩

/-- How a message names a token. -/
def describe (t : Token) : String :=
  if t.kind = .stop then "end of expression" else "'" ++ t.text ++ "'"

end Token

end FuzzyLogic
