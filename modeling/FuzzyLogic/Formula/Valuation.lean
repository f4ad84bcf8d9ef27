import FuzzyLogic.Formula.Compiled
import FuzzyLogic.Opset.Registry

/-!
# Formula/Valuation — a formula under an operation set

Degrees are assigned to the names, the tree is built under one operation set, and evaluated.
-/

namespace FuzzyLogic

/-- A tree and its degree. -/
structure Valuation where
  tree : Node
  value : Membership

namespace Compiled

/-- The tree of a formula over assigned degrees. -/
def assign (c : Compiled) (assignments : List (String × Number)) (labels : Bool) (o : Opset) :
    Except Fault Node := do
  let bound ← bindOperands assignments o labels
  c.build (scopeOf bound) (some o)

/-- The valuation of a formula over assigned degrees. -/
def valuate (c : Compiled) (assignments : List (String × Number)) (labels : Bool) (o : Opset) :
    Except Fault Valuation := do
  let tree ← c.assign assignments labels o
  return ⟨tree, ← tree.evaluate⟩

end Compiled

namespace Registry

/-- The names that a choice of operation sets stands for: `*` stands for all. -/
def chosen (r : Registry) (name : String) : List String :=
  if name = "*" then r.names else [name]

/-- The valuations of a formula under a choice of operation sets. -/
def valuateAll (r : Registry) (c : Compiled) (assignments : List (String × Number))
    (labels : Bool) (choice : String) : Except Fault (List (String × Valuation)) :=
  (r.chosen choice).mapM fun name => do
    let o ← r.require name
    return (name, ← c.valuate assignments labels o)

end Registry

end FuzzyLogic
