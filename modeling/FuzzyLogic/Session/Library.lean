import FuzzyLogic.Session.Member

/-!
# Session/Library — the functions of the library

What can be called beside constructors, operators and methods: compiling and building, binding
operands, looking up operation sets, and what any object can be asked.

A formula is built over a namespace, overlaid by keyword operands.  `fuzzyMath` compiles and builds
in one step; where it is given neither, it looks the names up among the variables of the frame that
calls it.
-/

namespace FuzzyLogic

namespace Session

/-! ## Compiling -/

/-- A compiled formula from the cache. -/
def compile (source : Value) : Run Value := do
  let s ← get
  let (outcome, cache) := s.cache.request source.toRequest
  set { s with cache := cache }
  let h ← pureRun outcome
  return .compiled (2 * h.serial) h.compiled

/-- A compiled formula of its own. -/
def parse (source : Value) : Run Value := do
  let c ← pureRun (Compiled.ofSource source.display)
  return .compiled (2 * (← fresh) + 1) c

/-- A formula put together with a source. -/
def newCompiled (source formula : Value) : Run Value := do
  match formula with
  | .formula f => return .compiled (2 * (← fresh) + 1) ⟨source.display, f⟩
  | v => noAttribute v "left"

/-! ## Building -/

/-- The operand that a value makes under a name. -/
def operand (name : String) (v : Value) : Run Value := do
  if isNode v then return v
  else if isFuzzy v then toExpr v
  else throw (.badOperand name v.typeName)

/-- Builds values by the combinators. -/
def values (scope : List (String × Value)) : Compiled.Builder Run Value where
  operand? := fun name => (scope.lookup name).map (operand name)
  negation := makeNot
  conjunction := makeAnd
  disjunction := makeOr

/-- The leaf of a literal under an operation set. -/
def literalLeaf (opset : Value) (value : Binary64) : Run Value := makeLeaf (.float value) opset

/-- Builds a compiled formula over a scope; keyword operands win. -/
def build (v : Value) (scope : List (String × Value)) (opset : Option Value)
    (keywords : List (String × Value)) : Run Value := do
  match v with
  | .compiled _ c =>
    c.buildWith (values (keywords ++ scope)) (opset.map literalLeaf) fun first => do
      return literalLeaf (← opsetOf first)
  | v => noAttribute v "build"

/-- The variables of a frame. -/
structure Frame where
  globals : List (String × Value)
  locals : List (String × Value)

/-- The variables that a frame sees: the global ones, overlaid by the local ones. -/
def Frame.scope (frame : Frame) : List (String × Value) :=
  Entries.overlay (Entries.overlay [] frame.globals) frame.locals

/-- Compiles a source and builds it.  With neither namespace nor keyword operands, names are looked
up in the calling frame, if there is one. -/
def fuzzyMath (caller? : Option Frame) (source : Value)
    (namespaced? : Option (List (String × Value))) (opset : Option Value)
    (keywords : List (String × Value)) : Run Value := do
  let compiled ← compile source
  if namespaced?.isNone && keywords.isEmpty then
    let scope := match caller? with
      | some frame => frame.scope
      | none => []
    build compiled scope opset []
  else build compiled (namespaced?.getD []) opset keywords

/-- Leaves for named values under an operation set. -/
def bindOperands (assignments : List Value) (opset : Value) (labels : Bool) :
    Run (List (String × Value)) :=
  assignments.foldlM (fun bound assignment => do
    match assignment, opset with
    | .list [name, value], .opset o => do
      let leaf ← opsetMethod o "atom" [value]
      let leaf ← if labels then attachLabel leaf name else pure leaf
      return Entries.put name.display leaf bound
    | .list [_, _], v => noAttribute v "atom"
    | v, _ => throw (.notCallable v.typeName)) []

/-! ## Operation sets and tags -/

/-- What the registry holds under a name. -/
def lookUp (name : Value) (found : Registry → String → Except Fault Value) : Run Value := do
  match name with
  | .text s => pureRun (found (← get).registry s)
  | v => noAttribute v "lower"

/-- The operation set registered under a name, if there is one. -/
def getOpset (name : Value) : Run Value :=
  lookUp name fun r s => .ok (((r.get? s).map .opset).getD .none)

/-- The operation set registered under a name. -/
def requireOpset (name : Value) : Run Value := lookUp name fun r s => (r.require s).map .opset

/-- The registered names. -/
def listOpsets : Run Value := do return .list ((← get).registry.names.map .text)

/-- A new tag. -/
def newTag (name text : Value) : Run Value := do
  if !(← pureRun text.isTrue) then throw (.tagTextMissing name.display)
  return .tag ⟨1000 + (← fresh), name.display, text.display⟩

/-! ## Any object -/

/-- Whether two values have one hash. -/
def sameHash (v w : Value) : Run Value := do
  pureRun v.checkHashable
  pureRun w.checkHashable
  return .truth (v.hashText == w.hashText)

/-- Calls a value. -/
def instantiate (v : Value) : Run Value :=
  match v with
  | .opset o => throw (.notInstantiable o.className)
  | .plainClass => return .thing "object"
  | v => throw (.notCallable v.typeName)

end Session

end FuzzyLogic
