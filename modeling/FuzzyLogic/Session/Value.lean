import FuzzyLogic.Formula.Cache
import FuzzyLogic.Opset.Registry

/-!
# Session/Value — the values that calls pass around

A call may be given anything, so a session works on one type of values: plain data, operation sets,
degrees, nodes, compiled formulas, and what has a degree without being one.  Objects carry a serial,
so that two equal objects can be told from one object seen twice; a node also carries the very
values it was made of.
-/

namespace FuzzyLogic

/-- A value of a session. -/
inductive Value
  | none
  | truth (b : Bool)
  | number (n : Number)
  | text (s : String)
  | list (items : List Value)
  | tuple (items : List Value)
  | map (entries : List (String × Value))
  | side (s : Side)
  | tag (t : Tag)
  | opset (o : Opset)
  /-- A class that is no operation set. -/
  | plainClass
  | membership (serial : Nat) (m : Membership)
  /-- An expression tree, and the values it was made of. -/
  | node (serial : Nat) (n : Node) (parts : List Value)
  /-- A node without a leaf, hence without operation set or degree. -/
  | hollow (serial : Nat) (typeName : String) (parts : List Value)
  | compiled (serial : Nat) (c : Compiled)
  | formula (f : Formula)
  | marker (serial : Nat) (opset : Value)
  /-- A domain object whose degree is another value. -/
  | domain (serial : Nat) (inner : Value)
  /-- A domain object that does not say its degree. -/
  | broken (serial : Nat)
  /-- Any other object. -/
  | thing (typeName : String)

namespace Value

/-- A double. -/
def float (x : Binary64) : Value := .number (.float x)

/-- A whole number. -/
def int (n : Int) : Value := .number (.int n)

/-- A list of texts that cannot be changed. -/
def texts (l : List String) : Value := .tuple (l.map .text)

/-- The name of a formula's kind. -/
def formulaType : Formula → String
  | .name _ _ => "Name"
  | .literal _ _ => "Literal"
  | .negation _ => "Negation"
  | .conjunction _ _ => "Conjunction"
  | .disjunction _ _ => "Disjunction"

/-- The name of a value's type. -/
def typeName : Value → String
  | none => "NoneType"
  | truth _ => "bool"
  | number n => n.typeName
  | text _ => "str"
  | list _ => "list"
  | tuple _ => "tuple"
  | map _ => "dict"
  | side _ => "Side"
  | tag t => t.name
  | opset _ | plainClass => "type"
  | membership _ _ => "Membership"
  | node _ n _ => n.typeName
  | hollow _ name _ => name
  | compiled _ _ => "CompiledExpression"
  | formula f => formulaType f
  | marker _ _ => "OpsetMarker"
  | domain _ _ => "Domain"
  | broken _ => "Broken"
  | thing name => name

/-! ## Shown in messages -/

/-- A formula, spelt out. -/
def showFormula : Formula → String
  | .name name position =>
    "Name(name=" ++ Text.quoted name ++ ", position=" ++ toString position ++ ")"
  | .literal value position =>
    "Literal(value=" ++ value.exactText ++ ", position=" ++ toString position ++ ")"
  | .negation operand => "Negation(operand=" ++ showFormula operand ++ ")"
  | .conjunction left right =>
    "Conjunction(left=" ++ showFormula left ++ ", right=" ++ showFormula right ++ ")"
  | .disjunction left right =>
    "Disjunction(left=" ++ showFormula left ++ ", right=" ++ showFormula right ++ ")"

/-- A compiled formula, spelt out. -/
def showCompiled (c : Compiled) : String :=
  "CompiledExpression(source=" ++ Text.quoted c.source ++ ", tree=" ++ showFormula c.formula ++
    ", names=" ++ Text.roundList (c.names.map Text.quoted) ++ ", has_literals=" ++
    truthText c.hasLiterals ++ ")"

/-- A class, by its qualified name. -/
def showClass (qualified : String) : String := "<class '" ++ qualified ++ "'>"

/-- The class name of a value that is a class. -/
def className? : Value → Option String
  | opset o => some o.className
  | plainClass => some "object"
  | _ => Option.none

mutual

/-- How a message shows a value. -/
def shown : Value → String
  | none => "None"
  | truth b => truthText b
  | number n => n.shown
  | text s => Text.quoted s
  | list items => "[" ++ Fault.commaList (showAll items) ++ "]"
  | tuple items => Text.roundList (showAll items)
  | map entries => "\x7b" ++ Fault.commaList (showEntries entries) ++ "\x7d"
  | side s => s.shown
  | tag t => t.name
  | opset o => showClass o.qualified
  | plainClass => showClass "object"
  | membership _ m => m.shown
  | node _ n _ => n.shown
  | hollow _ name parts => name ++ "(" ++ Fault.commaList (showAll parts) ++ ")"
  | compiled _ c => showCompiled c
  | formula f => showFormula f
  | marker _ o => "OpsetMarker(" ++ (className? o).getD "" ++ ")"
  | domain _ _ => "Domain"
  | broken _ => "Broken"
  | thing name => name

/-- How a message shows some values. -/
def showAll : List Value → List String
  | [] => []
  | v :: rest => shown v :: showAll rest

/-- How a message shows the entries of a map. -/
def showEntries : List (String × Value) → List String
  | [] => []
  | (key, v) :: rest => (Text.quoted key ++ ": " ++ shown v) :: showEntries rest

end

/-- The text of a value. -/
def display : Value → String
  | text s => s
  | tag t => t.text
  | number n => (Label.number n).display
  | side s => "Side." ++ s.label
  | membership _ m => m.text
  | node _ n _ => n.render
  | compiled _ c => c.canonical
  | v => v.shown

/-- The bytes of a value that is neither text nor number, without what it refers to. -/
def size : Value → Nat
  | none | hollow .. => 16
  | list items => 56 + 8 * items.length
  | tuple items => 40 + 8 * items.length
  | map _ => 64
  | marker .. => 40
  | _ => 56

/-- The label that a value makes. -/
def toLabel : Value → Label
  | text s => .text s
  | tag t => .tag t
  | number n => .number n
  | truth b => .truth b
  | side s => .side s
  | v => .other v.display v.shown v.size

/-! ## Identity and equality -/

/-- A truth value is the number one or zero. -/
def number? : Value → Option Number
  | number n => some n
  | truth b => some (.int (if b then 1 else 0))
  | _ => Option.none

/-- Whether a whole number is small enough to be one object everywhere. -/
def isSmall (n : Int) : Bool := decide (-5 ≤ n) && decide (n ≤ 256)

/-- One object: by serial where there is one, else where equal values are never told apart. -/
def isSame : Value → Value → Bool
  | none, none | plainClass, plainClass => true
  | truth a, truth b => a == b
  | number (.int a), number (.int b) => a == b && isSmall a
  | text a, text b => a == b && decide (a.length ≤ 1)
  | tuple [], tuple [] => true
  | side a, side b => a == b
  | tag a, tag b => a.id == b.id
  | opset a, opset b => a.same b
  | membership a _, membership b _ | node a _ _, node b _ _ | hollow a _ _, hollow b _ _
  | compiled a _, compiled b _ | marker a _, marker b _ | domain a _, domain b _
  | broken a, broken b => a == b
  | _, _ => false

mutual

/-- Equal: numbers numerically, immutable objects by their parts, all others as one object. -/
def equals : Value → Value → Bool
  | list a, list b | tuple a, tuple b => allEqual a b
  | map a, map b => a.length == b.length && entriesEqual a b
  | text a, text b => a == b
  | membership i a, membership j b => i == j || a.equals b
  | node i a as, node j b bs => i == j || (a.typeName == b.typeName && allEqual as bs)
  | hollow i a as, hollow j b bs =>
    i == j || (a == b && !as.isEmpty && !bs.isEmpty && allEqual as bs)
  | compiled _ a, compiled _ b => a == b
  | formula a, formula b => a == b
  | a, b =>
    match a.number?, b.number? with
    | some x, some y => x.equals y
    | _, _ => isSame a b

/-- Equal item by item. -/
def allEqual : List Value → List Value → Bool
  | [], [] => true
  | a :: as, b :: bs => (isSame a b || equals a b) && allEqual as bs
  | _, _ => false

/-- Every entry of a map has an equal one under its key in another. -/
def entriesEqual : List (String × Value) → List (String × Value) → Bool
  | [], _ => true
  | (key, a) :: rest, b =>
    (match b.lookup key with
      | some v => isSame a v || equals a v
      | Option.none => false) && entriesEqual rest b

end

/-! ## Truth -/

/-- What a condition makes of a value; nodes refuse to be one. -/
def isTrue : Value → Except Fault Bool
  | none => .ok false
  | truth b => .ok b
  | number n => .ok !n.isZero
  | text s => .ok !s.isEmpty
  | list items | tuple items => .ok !items.isEmpty
  | map entries => .ok !entries.isEmpty
  | node _ n _ => .error (.noTruthValue n.typeName)
  | hollow _ name _ => .error (.noTruthValue name)
  | _ => .ok true

/-- Whether a value has a hash: lists and maps have none. -/
def checkHashable : Value → Except Fault Unit
  | list _ => .error (.unhashable "list")
  | map _ => .error (.unhashable "dict")
  | _ => .ok ()

/-! ## Hashes -/

/-- What the hash of a number depends on: its exact value. -/
def numberHash (n : Number) : String :=
  match n.point? with
  | some (.finite num den) => (Number.ratio (mkRat num den)).shown
  | _ => n.shown

mutual

/-- What the hash of a value depends on, as a text.  Objects that hold the same parts have one
hash, also when they are of different types. -/
def hashText : Value → String
  | truth b => numberHash (.int (if b then 1 else 0))
  | number n => numberHash n
  | text s => Text.quoted s
  | side s => Text.quoted s.label
  | tag t => "tag " ++ toString t.id
  | opset o => "class " ++ toString o.id
  | tuple items => Text.roundList (hashTexts items)
  | membership _ m => Text.roundList [numberHash m.raw, "class " ++ toString m.opset.id]
  | node _ _ parts => Text.roundList (hashTexts parts)
  | compiled _ c => showCompiled c
  | formula f => showFormula f
  | hollow serial _ _ | marker serial _ | domain serial _ | broken serial =>
    "object " ++ toString serial
  | v => v.typeName

/-- What the hashes of some values depend on. -/
def hashTexts : List Value → List String
  | [] => []
  | v :: rest => hashText v :: hashTexts rest

end

/-! ## Requests -/

/-- What a compile cache is asked when it is asked for a value. -/
def toRequest : Value → CacheRequest
  | text s => .text s
  | list _ => .unhashable "list"
  | map _ => .unhashable "dict"
  | v => .other v.typeName

end Value

end FuzzyLogic
