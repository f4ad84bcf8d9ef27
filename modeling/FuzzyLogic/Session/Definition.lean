import FuzzyLogic.Session.Object

/-!
# Session/Definition — operation sets defined in a session

A sketch is a definition that names its base class.  The class it makes is known by its name from
then on.
-/

namespace FuzzyLogic

/-- A new operation set, over a base class that is given by its name. -/
structure ClassSketch where
  className : String
  home : String
  base : String
  negationHook : Hook UnaryHook
  disjunctionHook : Hook BinaryHook
  conjunctionHook : Hook BinaryHook
  name : Option String
  doc : Option String
  differentiable : Option Bool
  formulas : Option (List String)
  isAbstract : Bool
  isRegistered : Bool

namespace ClassSketch

/-- The definition that a sketch stands for, over a base class. -/
def toDefinition (s : ClassSketch) (base : Opset) : Definition where
  className := s.className
  home := s.home
  base := base
  negationHook := s.negationHook
  disjunctionHook := s.disjunctionHook
  conjunctionHook := s.conjunctionHook
  name := s.name
  doc := s.doc
  differentiable := s.differentiable
  formulas := s.formulas
  isAbstract := s.isAbstract
  isRegistered := s.isRegistered

end ClassSketch

namespace Session

/-- The class of a name: one defined here, one of the catalogue, or one that is no operation set. -/
def classNamed (name : String) : Run Value := do
  match (← get).classes.lookup name with
  | some o => return .opset o
  | none => if name = "object" then return .plainClass else throw (.unknownReference name)

/-- Defines an operation set and makes its class name known. -/
def define (sketch : ClassSketch) : Run Value := do
  match ← classNamed sketch.base with
  | .opset base =>
    let id := Catalogue.all.length + 1 + (← fresh)
    let (o, registry) ← pureRun
      ((sketch.toDefinition base).define id (← get).registry)
    modify fun s => { s with registry := registry, classes := (o.className, o) :: s.classes }
    return .opset o
  | _ => throw (.unknownReference sketch.base)

end Session

end FuzzyLogic
