import FuzzyLogic.Decimal.Reader
import FuzzyLogic.Formula.Refusal
import FuzzyLogic.Text.Blank

/-!
# Formula/Lexer — a text as tokens

White space separates tokens and is dropped.  Identifiers and numbers are taken as long as
possible, and a number must not run into a point, a letter, a digit or an underscore.

`lexeme` reads one token off nonblank text, `scan` all of them; both say how much text they take,
and `scan` gets shorter with every step.
-/

namespace FuzzyLogic

namespace Token

/-- Whether a character may begin an identifier. -/
def isIdentStart (c : Char) : Bool :=
  c == '_' || ('a' ≤ c && c ≤ 'z') || ('A' ≤ c && c ≤ 'Z')

/-- Whether a character may stand in an identifier. -/
def isIdentChar (c : Char) : Bool := isIdentStart c || Decimal.isDigit c

/-- The kind of a token of one character. -/
def symbolKind? : Char → Option TokenKind
  | '!' | '~' => some .not
  | '&' => some .and
  | '|' => some .or
  | '(' => some .leftParen
  | ')' => some .rightParen
  | _ => none

/-- Whether a number may end before some text. -/
def endsNumber : List Char → Bool
  | [] => true
  | c :: _ => c != '.' && !isIdentChar c

/-- A number of some text, if it may end where it does. -/
def number (text after : List Char) : Except Refusal (List Char) :=
  match after with
  | [] => .ok text
  | c :: _ =>
    if endsNumber after then .ok text
    else .error ⟨.malformedNumber (String.ofList (text ++ [c])), 0⟩

/-- The longest number at the front of a text; places count from that front. -/
def numeral (cs : List Char) : Except Refusal (List Char) :=
  let whole := cs.takeWhile Decimal.isDigit
  match cs.dropWhile Decimal.isDigit with
  | '.' :: after =>
    let fraction := after.takeWhile Decimal.isDigit
    if fraction.isEmpty then .error ⟨.missingFraction, whole.length + 1⟩
    else number (whole ++ '.' :: fraction) (after.dropWhile Decimal.isDigit)
  | after => number whole after

/-- The token that a character and the text after it begin with: its kind and text. -/
def lexeme (c : Char) (rest : List Char) : Except Refusal (TokenKind × List Char) :=
  match symbolKind? c with
  | some kind => .ok (kind, [c])
  | none =>
    if isIdentStart c then .ok (.ident, c :: rest.takeWhile isIdentChar)
    else if Decimal.isDigit c || c == '.' then
      (numeral (c :: rest)).map fun text => (.number, text)
    else .error ⟨.strayCharacter c, 0⟩

/-- The tokens of a text that begins at some place. -/
def scan (position : Nat) : List Char → Except Refusal (List Token)
  | [] => .ok []
  | c :: rest =>
    if Text.isBlank c then scan (position + 1) rest
    else
      match lexeme c rest with
      | .error r => .error ⟨r.cause, position + r.position⟩
      | .ok (kind, text) =>
        (scan (position + 1 + (text.length - 1)) (rest.drop (text.length - 1))).map
          (⟨kind, String.ofList text, position⟩ :: ·)
termination_by cs => cs.length

end Token

/-- The tokens of a text, its end excluded. -/
def lexemes (source : String) : Except SyntaxFault (List Token) :=
  (Token.scan 0 source.toList).mapError (⟨source, ·⟩)

/-- The tokens of a text and its end. -/
def tokenize (source : String) : Except SyntaxFault (List Token) :=
  (lexemes source).map (· ++ [Token.stop source.length])

end FuzzyLogic
