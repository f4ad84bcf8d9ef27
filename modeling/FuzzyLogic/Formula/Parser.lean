import FuzzyLogic.Formula.Basic
import FuzzyLogic.Formula.Lexer

/-!
# Formula/Parser — tokens as a formula

    disjunction := conjunction ('|' conjunction)*
    conjunction := negation ('&' negation)*
    negation    := ('!' | '~') negation | primary
    primary     := name | number | '(' disjunction ')'

Binary operators associate to the left.  Each reader takes tokens off the front of a list and
returns what is left, which is shorter: that is why reading ends.  The token before the front is
passed along, since it tells which operand is missing.
-/

namespace FuzzyLogic

namespace Formula

/-- A formula read off the front of a token list, its last token, and what is left. -/
structure Parsed (ts : List Token) where
  formula : Formula
  last : Token
  rest : List Token
  rest_shorter : rest.length < ts.length

/-- The token at the front, or the end of the text. -/
def front (length : Nat) : List Token → Token
  | [] => Token.stop length
  | t :: _ => t

/-- A refusal at a token. -/
def refuse (cause : RefusalCause) (t : Token) : Refusal := ⟨cause, t.position⟩

/-- Tells what is wrong where an operand should stand. -/
def diagnose (previous : Option Token) (found : Token) : Refusal :=
  match previous with
  | some p =>
    if p.kind = .not then refuse (.danglingNegation p) p
    else if found.kind.isBinary then
      if p.kind.isBinary then refuse (.consecutiveOperators p found) found
      else refuse (.missingLeft found) found
    else if p.kind.isBinary then
      if found.kind = .stop then refuse (.trailingOperator p) p
      else refuse (.missingRight p) p
    else if found.kind = .rightParen then refuse .unmatchedClose found
    else refuse (.missingOperand found) found
  | none =>
    if found.kind.isBinary then refuse (.leadingOperator found) found
    else if found.kind = .rightParen then refuse .unmatchedClose found
    else refuse (.missingOperand found) found

/-- The double that the text of a number token denotes. -/
def literalValue (text : String) : Binary64 :=
  match Decimal.read? text.toList with
  | some d => .signed false d.toMagnitude
  | none => .nan

mutual

/-- Reads conjunctions joined by `|`. -/
def readDisjunction (length : Nat) (previous : Option Token) (ts : List Token) :
    Except Refusal (Parsed ts) :=
  match readConjunction length previous ts with
  | .error r => .error r
  | .ok left => moreDisjuncts length left
termination_by (ts.length, 5)
decreasing_by
  · exact Prod.Lex.right _ (by decide)
  · exact Prod.Lex.left _ _ left.rest_shorter

/-- Joins further conjunctions to a formula that has been read. -/
def moreDisjuncts (length : Nat) {ts : List Token} (left : Parsed ts) :
    Except Refusal (Parsed ts) :=
  match h : left.rest with
  | [] => .ok left
  | op :: after =>
    if op.kind = .or then
      match readConjunction length (some op) after with
      | .error r => .error r
      | .ok right =>
        have : right.rest.length < left.rest.length := by
          have := right.rest_shorter
          simp only [h, List.length_cons]; omega
        let joined : Parsed ts := ⟨.disjunction left.formula right.formula, right.last, right.rest,
          Nat.lt_trans this left.rest_shorter⟩
        moreDisjuncts length joined
    else .ok left
termination_by (left.rest.length, 4)
decreasing_by
  · exact Prod.Lex.left _ _ (by simp [h])
  · exact Prod.Lex.left _ _ this

/-- Reads negations joined by `&`. -/
def readConjunction (length : Nat) (previous : Option Token) (ts : List Token) :
    Except Refusal (Parsed ts) :=
  match readNegation length previous ts with
  | .error r => .error r
  | .ok left => moreConjuncts length left
termination_by (ts.length, 3)
decreasing_by
  · exact Prod.Lex.right _ (by decide)
  · exact Prod.Lex.left _ _ left.rest_shorter

/-- Joins further negations to a formula that has been read. -/
def moreConjuncts (length : Nat) {ts : List Token} (left : Parsed ts) :
    Except Refusal (Parsed ts) :=
  match h : left.rest with
  | [] => .ok left
  | op :: after =>
    if op.kind = .and then
      match readNegation length (some op) after with
      | .error r => .error r
      | .ok right =>
        have : right.rest.length < left.rest.length := by
          have := right.rest_shorter
          simp only [h, List.length_cons]; omega
        let joined : Parsed ts := ⟨.conjunction left.formula right.formula, right.last, right.rest,
          Nat.lt_trans this left.rest_shorter⟩
        moreConjuncts length joined
    else .ok left
termination_by (left.rest.length, 2)
decreasing_by
  · exact Prod.Lex.left _ _ (by simp [h])
  · exact Prod.Lex.left _ _ this

/-- Reads a primary after any number of negations. -/
def readNegation (length : Nat) (previous : Option Token) (ts : List Token) :
    Except Refusal (Parsed ts) :=
  match ts with
  | [] => .error (diagnose previous (Token.stop length))
  | t :: after =>
    if t.kind = .not then
      match readNegation length (some t) after with
      | .error r => .error r
      | .ok inner => .ok ⟨.negation inner.formula, inner.last, inner.rest,
          Nat.lt_succ_of_lt inner.rest_shorter⟩
    else readPrimary length previous t after
termination_by (ts.length, 1)
decreasing_by
  · exact Prod.Lex.left _ _ (Nat.lt_succ_self _)
  · exact Prod.Lex.right _ (by decide)

/-- Reads a name, a number or a formula in parentheses. -/
def readPrimary (length : Nat) (previous : Option Token) (t : Token) (after : List Token) :
    Except Refusal (Parsed (t :: after)) :=
  match t.kind with
  | .ident => .ok ⟨.name t.text t.position, t, after, Nat.lt_succ_self _⟩
  | .number =>
    let value := literalValue t.text
    if value.isDegree then .ok ⟨.literal value t.position, t, after, Nat.lt_succ_self _⟩
    else .error (refuse (.notADegree t.text) t)
  | .leftParen =>
    if (front length after).kind = .rightParen then .error (refuse .emptyParentheses t)
    else
      match readDisjunction length (some t) after with
      | .error r => .error r
      | .ok inner =>
        match h : inner.rest with
        | [] => .error (refuse .unclosed t)
        | closing :: rest =>
          if closing.kind = .rightParen then
            .ok ⟨inner.formula, closing, rest, by
              have := inner.rest_shorter
              simp only [h, List.length_cons] at this ⊢; omega⟩
          else if closing.kind.startsOperand then
            .error (refuse (.missingOperator closing) closing)
          else .error (refuse (.expectedClose closing) closing)
  | _ => .error (diagnose previous t)
termination_by (after.length + 1, 0)
decreasing_by exact Prod.Lex.left _ _ (Nat.lt_succ_self _)

end

/-- The formula that a token list writes, in a text of some length. -/
def ofTokens (length : Nat) (ts : List Token) : Except Refusal Formula :=
  match ts with
  | [] => .error (refuse .empty (Token.stop length))
  | _ :: _ =>
    match readDisjunction length none ts with
    | .error r => .error r
    | .ok whole =>
      match whole.rest with
      | [] => .ok whole.formula
      | t :: _ =>
        if t.kind = .rightParen then .error (refuse .unmatchedClose t)
        else if t.kind.startsOperand then .error (refuse (.missingOperator t) t)
        else .error (refuse (.unexpected t) t)

/-- The formula that a text writes. -/
def parse (source : String) : Except SyntaxFault Formula := do
  let ts ← lexemes source
  (ofTokens source.length ts).mapError (⟨source, ·⟩)

end Formula

end FuzzyLogic
