import FuzzyLogic.Number
import FuzzyLogic.Text.Quoted

/-!
# Expr/Label — what a leaf shows in place of its degree

A label is a text, a tag, or a plain value with a text form.  A `Tag` is a name and a text shared by
all its uses; what tells two tags apart is their identity.
-/

namespace FuzzyLogic

/-- Which arm of an alternative is populated. -/
inductive Side
  | left
  | right
  deriving DecidableEq

namespace Side

/-- The name of a side. -/
def label : Side → String
  | left => "LEFT"
  | right => "RIGHT"

/-- The value of a side. -/
def value : Side → String
  | left => "left"
  | right => "right"

/-- How a message shows a side. -/
def shown (s : Side) : String := "<Side." ++ s.label ++ ": '" ++ s.value ++ "'>"

end Side

/-- A label without data of its own. -/
structure Tag where
  id : Nat
  name : String
  text : String
  deriving DecidableEq

namespace Tag

/-- The tag all others derive from, of empty text. -/
def root : Tag := ⟨0, "Tag", ""⟩

/-- The tag of a letter: `TagA` shows `a`. -/
def ofLetter (letter : Char) : Tag :=
  ⟨letter.toNat, "Tag" ++ letter.toString, (Char.ofNat (letter.toNat + 32)).toString⟩

end Tag

/-- A label. -/
inductive Label
  | text (s : String)
  | tag (t : Tag)
  | number (n : Number)
  | truth (b : Bool)
  | side (s : Side)
  /-- Any other object, by its text, the form in which a message shows it, and its bytes. -/
  | other (display shown : String) (size : Nat)
  deriving DecidableEq

/-- How a truth value is written. -/
def truthText (b : Bool) : String := if b then "True" else "False"

namespace Label

/-- What a leaf with this label shows. -/
def display : Label → String
  | text s => s
  | tag t => t.text
  | number (.ratio q) =>
    toString q.num ++ (if q.den = 1 then "" else "/" ++ toString q.den)
  | number n => n.shown
  | truth b => truthText b
  | side s => "Side." ++ s.label
  | other display _ _ => display

/-- How a message shows a label. -/
def shown : Label → String
  | text s => Text.quoted s
  | tag t => t.name
  | number n => n.shown
  | truth b => truthText b
  | side s => s.shown
  | other _ shown _ => shown

/-- A truth value is the number one or zero. -/
def number? : Label → Option Number
  | number n => some n
  | truth b => some (.int (if b then 1 else 0))
  | _ => none

/-- Equal labels: numbers numerically, all others as they are. -/
def equals (a b : Label) : Bool :=
  match a.number?, b.number? with
  | some x, some y => x.equals y
  | _, _ => a = b

/-- The bytes a text takes: a header, and one, two or four bytes for every character, as the widest
of them needs. -/
def textSize (s : String) : Nat :=
  let widest := s.toList.foldl (fun w c => Nat.max w c.toNat) 0
  if widest < 0x80 then 49 + s.length
  else if widest < 0x100 then 73 + s.length
  else if widest < 0x10000 then 74 + 2 * s.length
  else 76 + 4 * s.length

/-- The bytes a label owns; tags own none. -/
def payload : Label → Nat
  | text s => textSize s
  | tag _ => 0
  | number n => n.size
  | truth _ => 28
  | side _ => 56
  | other _ _ size => size

end Label

end FuzzyLogic
