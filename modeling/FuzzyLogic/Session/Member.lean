import FuzzyLogic.Session.Operator

/-!
# Session/Member — attributes and methods

What can be asked of an object by name, and what it can be told to do.
-/

namespace FuzzyLogic

namespace Session

/-! ## Attributes -/

/-- An attribute of a leaf or operator node, by the values the node was made of. -/
def nodeAttribute? (v : Value) (name : String) : Option Value :=
  match v, name with
  | .node _ (.atom _) [value], "value" => some value
  | .node _ (.labeled _ _) [value, _], "value" => some value
  | .node _ (.labeled _ _) [_, label], "label" => some label
  | .node _ (.not _) [child], "child" => some child
  | .hollow _ "Not" [child], "child" => some child
  | .node _ (.and _ _) [left, _], "left" | .node _ (.or _ _) [left, _], "left" => some left
  | .node _ (.and _ _) [_, right], "right" | .node _ (.or _ _) [_, right], "right" => some right
  | .node _ (.alternative _ _) [side, _], "side" | .hollow _ _ [side, _], "side" => some side
  | .node _ (.alternative _ _) [_, branch], "branch" | .hollow _ _ [_, branch], "branch" =>
    some branch
  | .node _ (.alternative s _) _, "is_left" => some (.truth (s == .left))
  | .node _ (.alternative s _) _, "is_right" => some (.truth (s == .right))
  | .node _ (.alternative _ _) _, "left" | .node _ (.alternative _ _) _, "right" =>
    some (.thing "method")
  | _, _ => none

/-- An attribute of a class of operation sets. -/
def opsetAttribute (o : Opset) (name : String) : Run Value :=
  let hook {α : Type} (h : Hook α) : Run Value :=
    match h with
    | .missing => throw (.missingClassAttribute o.className name)
    | .constant _ => return .int 5
    | .function _ => return .thing "function"
  match name with
  | "name" => return .text o.name
  | "differentiable" => return .truth o.differentiable
  | "notation" => return .texts o.formulas
  | "raw_not" => hook o.negationHook
  | "raw_or" => hook o.disjunctionHook
  | "raw_and" => hook o.conjunctionHook
  | _ => throw (.missingClassAttribute o.className name)

/-- An attribute of a formula. -/
def formulaAttribute (f : Formula) (name : String) : Run Value :=
  match f, name with
  | .name text _, "name" => return .text text
  | .name _ position, "position" | .literal _ position, "position" => return .int position
  | .literal value _, "value" => return .float value
  | .negation operand, "operand" => return .formula operand
  | .conjunction left _, "left" | .disjunction left _, "left" => return .formula left
  | .conjunction _ right, "right" | .disjunction _ right, "right" => return .formula right
  | f, name => throw (.missingAttribute (Value.formulaType f) name)

/-- An attribute of a value. -/
def getAttribute (v : Value) (name : String) : Run Value := do
  match v, name with
  | .membership _ m, "raw" => return .number m.raw
  | .opset o, _ => opsetAttribute o name
  | .compiled _ c, "source" => return .text c.source
  | .compiled _ c, "tree" => return .formula c.formula
  | .compiled _ c, "names" => return .texts c.names
  | .compiled _ c, "has_literals" => return .truth c.hasLiterals
  | .compiled _ c, "canonical" => return .text c.canonical
  | .formula f, _ => formulaAttribute f name
  | .tag t, "text" => return .text t.text
  | .side s, "name" => return .text s.label
  | .side s, "value" => return .text s.value
  | _, "opset" => opsetOf v
  | _, _ =>
    match nodeAttribute? v name with
    | some w => return w
    | none => noAttribute v name

/-! ## Methods -/

/-- A value that is a number. -/
def numberOf (v : Value) : Run Number :=
  match v.number? with
  | some n => return n
  | none => throw (.notReal v.typeName)

/-- A method of a class of operation sets. -/
def opsetMethod (o : Opset) (name : String) (args : List Value) : Run Value := do
  let self := Value.opset o
  match name, args with
  | "atom", [raw] => makeLeaf raw self
  | "member", [raw] => construct raw self
  | "negation", [v] => applyNegation self v
  | "disjunction", [v, w] => applyDisjunction self v w
  | "conjunction", [v, w] => applyConjunction self v w
  | "raw_not", [v] => return .number (← pureRun (o.rawNot (← numberOf v)))
  | "raw_or", [v, w] =>
    let a ← numberOf v
    return .number (← pureRun (o.rawOr a (← numberOf w)))
  | "raw_and", [v, w] =>
    let a ← numberOf v
    return .number (← pureRun (o.rawAnd a (← numberOf w)))
  | "marker", [] => newMarker self
  | "describe", [] => return .text o.describe
  | _, _ => throw (.missingClassAttribute o.className name)

/-- A method of a marker. -/
def markerMethod (opset : Value) (name : String) (args : List Value) : Run Value := do
  match opset, name, args with
  | .opset _, "negation", [v] => applyNegation opset (← markerOperand opset v)
  | .opset _, "disjunction", [v, w] =>
    let a ← markerOperand opset v
    applyDisjunction opset a (← markerOperand opset w)
  | .opset _, "conjunction", [v, w] =>
    let a ← markerOperand opset v
    applyConjunction opset a (← markerOperand opset w)
  | .opset _, _, _ => throw (.missingAttribute "OpsetMarker" name)
  | other, _, _ => noAttribute other name

/-- A method of a node. -/
def nodeMethod (v : Value) (name : String) (args : List Value) : Run Value := do
  match name, args with
  | "negate", [] => makeNot v
  | "conjoin", [w] => makeAnd v w
  | "disjoin", [w] => makeOr v w
  | "as_left", [] => makeAlternative (.side .left) v
  | "as_right", [] => makeAlternative (.side .right) v
  | "evaluate", [] => evaluate v
  | "render", [] => render v
  | _, _ =>
    match v, name, args with
    | .node _ (.atom _) _, "with_label", [label] => attachLabel v label
    | .node _ (.alternative _ _) _, "left", [w] => makeAlternative (.side .left) w
    | .node _ (.alternative _ _) _, "right", [w] => makeAlternative (.side .right) w
    | v, _, _ => throw (.missingAttribute v.typeName name)

/-- A method of a fuzzy value. -/
def fuzzyMethod (v : Value) (name : String) (args : List Value) : Run Value := do
  match v, name, args with
  | .membership _ m, "as_raw", [] => return .number m.raw
  | v, "membership", [] => membershipOf v
  | v, "to_expr", [] => toExpr v
  | v, _, _ => throw (.missingAttribute v.typeName name)

/-- A method of a value. -/
def callMethod (v : Value) (name : String) (args : List Value) : Run Value := do
  match v with
  | .opset o => opsetMethod o name args
  | .marker _ o => markerMethod o name args
  | .node .. | .hollow .. => nodeMethod v name args
  | .membership .. | .domain .. | .broken _ => fuzzyMethod v name args
  | .formula f =>
    match name, args with
    | "canonical", [] => return .text f.canonical
    | _, _ => throw (.missingAttribute v.typeName name)
  | v => noAttribute v name

end Session

end FuzzyLogic
