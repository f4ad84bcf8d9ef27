import FuzzyLogic.Session.Object

/-!
# Session/Operator — operators between values of any kind

Nodes are joined, fuzzy values are evaluated at once, whole numbers are combined bit by bit, and
degrees are ordered among themselves and with numbers.  Operands that do not know an operator give a
fault that names their types.
-/

namespace FuzzyLogic

namespace Session

/-! ## Negation, conjunction, disjunction -/

/-- The bits of two whole numbers combined; negative numbers have infinitely many leading ones. -/
def combineBits (f : Nat → Nat → Nat) (a b : Int) : Int :=
  let width := Nat.max a.natAbs.log2 b.natAbs.log2 + 2
  let span : Nat := 1 <<< width
  let bits := f (a % span).toNat (b % span).toNat
  if 2 * bits < span then bits else (bits : Int) - span

/-- The complement of a value. -/
def invert (v : Value) : Run Value := do
  if isNode v then makeNot v
  else if isFuzzy v then
    let m ← membershipOf v
    applyNegation (← opsetOf m) m
  else
    match v.number? with
    | some (.int n) => return .int (-n - 1)
    | _ => throw (.unsupportedOperand "~" v.typeName)

/-- A binary operator: on nodes, on fuzzy values, on truth values, or on bits. -/
def combine (symbol : String) (onNodes : Value → Value → Run Value)
    (onDegrees : Value → Value → Value → Run Value) (onTruth : Bool → Bool → Bool)
    (onBits : Nat → Nat → Nat) (v w : Value) : Run Value := do
  if isNode v && isNode w then onNodes v w
  else if isFuzzy v && isFuzzy w then
    let m ← membershipOf v
    let o ← opsetOf m
    onDegrees o m (← membershipOf w)
  else
    match v, w with
    | .truth a, .truth b => return .truth (onTruth a b)
    | v, w =>
      match v.number?, w.number? with
      | some (.int a), some (.int b) => return .int (combineBits onBits a b)
      | _, _ => throw (.unsupportedOperands symbol v.typeName w.typeName)

/-- The conjunction of two values. -/
def conjoin : Value → Value → Run Value :=
  combine "&" makeAnd applyConjunction (· && ·) (· &&& ·)

/-- The disjunction of two values. -/
def disjoin (v w : Value) : Run Value :=
  match v, w with
  | .map a, .map b => return .map (a.filter (fun e => (b.lookup e.1).isNone) ++ b)
  | v, w => combine "|" makeOr applyDisjunction (· || ·) (· ||| ·) v w

/-! ## Order -/

/-- The ways to compare. -/
inductive Comparison
  | lt
  | le
  | gt
  | ge

namespace Comparison

/-- The operator. -/
def symbol : Comparison → String
  | lt => "<"
  | le => "<="
  | gt => ">"
  | ge => ">="

/-- The comparison with exchanged operands. -/
def mirrored : Comparison → Comparison
  | lt => gt
  | le => ge
  | gt => lt
  | ge => le

/-- On numbers. -/
def onNumbers : Comparison → Number → Number → Bool
  | lt, x, y => x.lt y
  | le, x, y => x.le y
  | gt, x, y => y.lt x
  | ge, x, y => y.le x

/-- On an order. -/
def holds : Comparison → Ordering → Bool
  | lt, o => o == .lt
  | le, o => o != .gt
  | gt, o => o == .gt
  | ge, o => o != .lt

end Comparison

/-- Compares two values that are neither lists nor nodes. -/
def orderPlain (c : Comparison) (v w : Value) : Run Bool :=
  match v, w with
  | .membership _ m, .membership _ n => pureRun (m.compare c.onNumbers n)
  | .membership _ m, .number x => pureRun (m.compareNumber c.onNumbers x)
  | .number x, .membership _ m => pureRun (m.compareNumber c.mirrored.onNumbers x)
  | .text a, .text b => return c.holds (compare a b)
  | v, w =>
    match v.number?, w.number? with
    | some x, some y => return c.onNumbers x y
    | _, _ => throw (.unorderable c.symbol v.typeName w.typeName)

/-- Compares two values; lists by the first items that differ, else by length. -/
def order (c : Comparison) (v w : Value) : Run Bool :=
  match v, w with
  | .list a, .list b | .tuple a, .tuple b =>
    match (a.zip b).find? fun (x, y) => !(x.isSame y || x.equals y) with
    | some (x, y) => orderPlain c x y
    | none => return c.holds (compare a.length b.length)
  | v, w => orderPlain c v w

/-! ## Membership of numbers that are not validated yet -/

/-- The degree of a value that compares as lying in `[0, 1]`, and nothing of any other. -/
def tryConstruct (raw opset : Value) : Run Value := do
  if !(← order .le (.float .zero) raw) then return .none
  if !(← order .le raw (.float .one)) then return .none
  construct raw opset

/-- The degree nearest to a value that stands for a number. -/
def fit (raw opset : Value) : Run Value := do
  let x ← realOf raw
  if x.isNaN then throw (.notANumber (opset.className?.getD ""))
  construct (.float (Membership.clamped x)) opset

/-- The degree of a number as it is. -/
def unchecked (raw opset : Value) : Run Value := do
  match raw.number?, opset with
  | some n, .opset o => newMembership ⟨n, o⟩
  | some _, v => throw (.badOpset v.shown)
  | none, _ => throw (.notReal raw.typeName)

/-! ## Conversions -/

/-- A value as a double. -/
def toFloat (v : Value) : Run Value := do
  match v with
  | .text s =>
    match Binary64.read? s with
    | some x => return .float x
    | none => throw (.badNumberText (Text.quoted s))
  | .membership .. | .number _ | .truth _ => return .float (← realOf v)
  | v => throw (.notConvertible v.typeName)

/-- The text of a degree, as that of the double nearest to it. -/
def formatRaw (v : Value) : Run Value := do
  match ← toFloat v with
  | .number n => return .text n.plainText
  | v => throw (.notConvertible v.typeName)

/-- The text of a value.  Degrees beyond the doubles and nodes without a leaf have none. -/
def textOf (v : Value) : Run Value := do
  match v with
  | .number n => pureRun n.checkDigits
  | .membership _ m => pureRun m.checkWritten
  | .node _ n _ => pureRun (n.leaves.forM Membership.checkWritten)
  | .hollow .. => throw (.unknownExpression (hollowCore v))
  | _ => pure ()
  return .text v.display

/-- How a value is shown.  A membership shows its raw number, a leaf the text of its degree. -/
def reprOf (v : Value) : Run Value := do
  match v with
  | .number n | .membership _ ⟨n, _⟩ => pureRun n.checkDigits
  | .node _ n _ => pureRun (n.leaves.forM Membership.checkWritten)
  | .hollow .. => throw (.unknownExpression (hollowCore v))
  | _ => pure ()
  return .text v.shown

/-- Refuses to set an attribute, as each kind of object does. -/
def setAttribute (v : Value) (name : String) : Run Value :=
  match v with
  | .membership .. | .node .. | .compiled .. | .formula _ => throw (.frozenField name)
  | .hollow _ _ (_ :: _) => throw (.frozenField name)
  | .tag t =>
    if name = "text" then throw (.readOnlyAttribute t.name name)
    else throw (.missingAttribute t.name name)
  | .domain .. | .broken _ | .opset _ => return .none
  | v => throw (.missingAttribute v.typeName name)

end Session

end FuzzyLogic
