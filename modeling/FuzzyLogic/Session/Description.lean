import FuzzyLogic.Session.Value

/-!
# Session/Description — what a session reports of a value

Data is reported as it is, degrees and trees with their texts, classes by name, and any other object
by the name of its type.
-/

namespace FuzzyLogic

/-- The report of a value. -/
inductive Description
  | none
  | truth (b : Bool)
  | text (s : String)
  | int (n : Int)
  | float (x : Binary64)
  | ratio (q : Rat)
  | list (items : List Description)
  | membership (shown text : String)
  | node (shown text opset : String)
  | bareNode (typeName : String)
  | compiled (c : Compiled)
  | marker (shown : String)
  | tag (shown text : String)
  | side (label value : String)
  | opset (className : String)
  | object (typeName : String)

namespace Value

/-- Refuses degrees that are too large to be written as doubles are. -/
def checkWritten (degrees : List Membership) : Except Fault Unit :=
  degrees.forM Membership.checkWritten

mutual

/-- Reports a value. -/
def describe : Value → Except Fault Description
  | none => .ok .none
  | truth b => .ok (.truth b)
  | text s => .ok (.text s)
  | number (.int n) => .ok (.int n)
  | number (.float x) => .ok (.float x)
  | number (.ratio q) => .ok (.ratio q)
  | list items | tuple items => (describeAll items).map .list
  | membership _ m => do
    checkWritten [m]
    return .membership m.shown m.text
  | node _ n _ => do
    checkWritten n.leaves
    return .node n.shown n.render n.opset.className
  | hollow _ name _ => .ok (.bareNode name)
  | compiled _ c => .ok (.compiled c)
  | marker _ o =>
    match className? o with
    | some name => .ok (.marker ("OpsetMarker(" ++ name ++ ")"))
    | Option.none => .error (.missingAttribute o.typeName "__name__")
  | tag t => .ok (.tag t.name t.text)
  | side s => .ok (.side s.label s.value)
  | opset o => .ok (.opset o.className)
  | plainClass => .ok (.opset "object")
  | v => .ok (.object v.typeName)

/-- Reports some values. -/
def describeAll : List Value → Except Fault (List Description)
  | [] => .ok []
  | v :: rest => do
    let d ← describe v
    return d :: (← describeAll rest)

end

end Value

end FuzzyLogic
