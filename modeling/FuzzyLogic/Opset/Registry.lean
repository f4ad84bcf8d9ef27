import FuzzyLogic.Opset.Catalogue
import FuzzyLogic.Text.Blank
import FuzzyLogic.Text.LetterCase
import FuzzyLogic.Text.Lines

/-!
# Opset/Registry — operation sets by name

Every concrete operation set registers under the lower case of its name.  A name belongs to the
first class that takes it; only a class of the same qualified name may take it over.

A `Definition` describes a new class: what it does not say it inherits, its documentation and,
unless it is abstract, its name excepted.
-/

namespace FuzzyLogic

/-- Operation sets under distinct names, in the order of registration. -/
structure Registry where
  entries : List (String × Opset)

namespace Registry

/-- The operation set under a key, taken as it is. -/
def find? (r : Registry) (key : String) : Option Opset := r.entries.lookup key

/-- The operation set under a name, in whatever case. -/
def get? (r : Registry) (name : String) : Option Opset := r.find? (Text.lower name)

/-- The registered names, sorted. -/
def names (r : Registry) : List String := Fault.sorted (r.entries.map (·.1))

/-- The operation set under a name, or a fault that lists the names. -/
def require (r : Registry) (name : String) : Except Fault Opset :=
  match r.get? name with
  | some o => .ok o
  | none => .error (.unknownOpset name r.names)

/-- Puts an operation set under a key, in place of what is there. -/
def put (r : Registry) (key : String) (o : Opset) : Registry :=
  if (r.find? key).isSome then
    ⟨r.entries.map fun e => if e.1 = key then (key, o) else e⟩
  else ⟨r.entries ++ [(key, o)]⟩

/-- Registers an operation set under its name. -/
def register (r : Registry) (o : Opset) : Except Fault Registry :=
  let key := Text.lower o.name
  match r.find? key with
  | some holder =>
    if holder.qualified = o.qualified then .ok (r.put key o)
    else .error (.nameTaken key holder.qualified o.qualified)
  | none => .ok (r.put key o)

/-- The registry that holds the catalogue. -/
def catalogue : Registry := ⟨Catalogue.all.map fun o => (o.name, o)⟩

end Registry

/-- A new class of operation sets. -/
structure Definition where
  className : String
  home : String
  base : Opset
  negationHook : Hook UnaryHook
  disjunctionHook : Hook BinaryHook
  conjunctionHook : Hook BinaryHook
  name : Option String
  doc : Option String
  differentiable : Option Bool
  formulas : Option (List String)
  isAbstract : Bool
  isRegistered : Bool

namespace Definition

/-- The class that a definition describes, given its identity. -/
def toOpset (d : Definition) (id : Nat) : Opset where
  id := id
  className := d.className
  home := d.home
  name := d.name.getD (if d.isAbstract then d.base.name else Text.lower d.className)
  differentiable := d.differentiable.getD d.base.differentiable
  formulas := d.formulas.getD d.base.formulas
  doc := d.doc
  negationHook := d.negationHook.orElse d.base.negationHook
  disjunctionHook := d.disjunctionHook.orElse d.base.disjunctionHook
  conjunctionHook := d.conjunctionHook.orElse d.base.conjunctionHook

/-- The names of the hooks that a class lacks. -/
def missingHooks (o : Opset) : List String :=
  (if o.negationHook.isFunction then [] else ["raw_not"]) ++
    (if o.disjunctionHook.isFunction then [] else ["raw_or"]) ++
    (if o.conjunctionHook.isFunction then [] else ["raw_and"])

/-- Defines a class: an abstract one as it is, any other one only with all hooks, and registered
unless it asks not to be. -/
def define (d : Definition) (id : Nat) (r : Registry) : Except Fault (Opset × Registry) :=
  let o := d.toOpset id
  if d.isAbstract then .ok (o, r)
  else if !(missingHooks o).isEmpty then
    .error (.missingHooks o.className (missingHooks o))
  else if d.isRegistered then (r.register o).map (o, ·)
  else .ok (o, r)

theorem missingHooks_eq_nil_iff {o : Opset} : missingHooks o = [] ↔ o.isConcrete := by
  unfold missingHooks Opset.isConcrete
  cases o.negationHook.isFunction <;> cases o.disjunctionHook.isFunction <;>
    cases o.conjunctionHook.isFunction <;> simp

end Definition

namespace Opset

/-- The first line of the documentation, or the name of the class. -/
def describe (o : Opset) : String :=
  let doc := Text.strip (o.doc.getD "")
  if doc.isEmpty then o.className else Text.firstLine doc

end Opset

end FuzzyLogic
