import FuzzyLogic.Decimal.Layout

/-!
# Formula/Basic — formulas over named operands

A formula joins names and literal degrees by negation, conjunction and disjunction.  Leaves keep
their place in the text they were read from.  `canonical` writes a formula with every binary
operation in parentheses; `assemble` is the fold that gives it a meaning.
-/

namespace FuzzyLogic

/-- A formula. -/
inductive Formula
  | name (text : String) (position : Nat)
  | literal (value : Binary64) (position : Nat)
  | negation (operand : Formula)
  | conjunction (left right : Formula)
  | disjunction (left right : Formula)
  deriving DecidableEq

namespace Formula

/-- The fully parenthesised text. -/
def canonical : Formula → String
  | name text _ => text
  | literal value _ => value.plainText
  | negation operand => "!" ++ operand.canonical
  | conjunction left right => "(" ++ left.canonical ++ " & " ++ right.canonical ++ ")"
  | disjunction left right => "(" ++ left.canonical ++ " | " ++ right.canonical ++ ")"

/-- The names from left to right, with repetition. -/
def nameLeaves : Formula → List String
  | name text _ => [text]
  | literal _ _ => []
  | negation operand => operand.nameLeaves
  | conjunction left right | disjunction left right => left.nameLeaves ++ right.nameLeaves

/-- The literal degrees from left to right. -/
def literals : Formula → List Binary64
  | name _ _ => []
  | literal value _ => [value]
  | negation operand => operand.literals
  | conjunction left right | disjunction left right => left.literals ++ right.literals

/-- The names in order of first appearance. -/
def names (f : Formula) : List String := f.nameLeaves.eraseDups

/-- Whether a literal degree appears. -/
def hasLiterals (f : Formula) : Bool := !f.literals.isEmpty

/-! ## Meanings -/

/-- What the parts of a formula become, in a setting `m` that may fail. -/
structure Meaning (m : Type → Type) (α : Type) where
  name : String → m α
  literal : Binary64 → m α
  negation : α → m α
  conjunction : α → α → m α
  disjunction : α → α → m α

/-- A formula with every part replaced by its meaning, the left operand before the right. -/
def assemble {m : Type → Type} {α : Type} [Monad m] (M : Meaning m α) : Formula → m α
  | name text _ => M.name text
  | literal value _ => M.literal value
  | negation operand => do M.negation (← operand.assemble M)
  | conjunction left right => do
    let l ← left.assemble M
    let r ← right.assemble M
    M.conjunction l r
  | disjunction left right => do
    let l ← left.assemble M
    let r ← right.assemble M
    M.disjunction l r

end Formula

end FuzzyLogic
