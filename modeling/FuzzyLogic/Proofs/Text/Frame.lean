/-!
# Proofs/Text/Frame — texts with gaps

A frame is a text with gaps in it, each of which says what belongs there.  Two ways to fill one frame
give two texts that agree but for the gaps: what a text consists of, and what may be put in place of
some of it, is said once, by the frame.

Formulas and trees have the same outline (a sign before, or parentheses around and an operator
between), so that both are written by `Frame.negation` and `Frame.operation`.
-/

namespace FuzzyLogic.Text

/-- A piece of a text: a text of its own, or a gap. -/
inductive Piece (α : Type)
  | fixed (text : String)
  | gap (content : α)

/-- A text with gaps. -/
abbrev Frame (α : Type) := List (Piece α)

namespace Frame

variable {α : Type} {write write' : α → String} {x y : Frame α}

/-- The text of a frame with every gap filled. -/
def fill (write : α → String) : Frame α → String
  | [] => ""
  | .fixed text :: rest => text ++ fill write rest
  | .gap content :: rest => write content ++ fill write rest

/-- The gaps from left to right. -/
def gaps : Frame α → List α
  | [] => []
  | .fixed _ :: rest => gaps rest
  | .gap content :: rest => content :: gaps rest

/-- A frame behind the sign of negation. -/
def negation (x : Frame α) : Frame α := .fixed "!" :: x

/-- Two frames in parentheses, with an operator between. -/
def operation (operator : String) (x y : Frame α) : Frame α :=
  .fixed "(" :: (x ++ .fixed operator :: (y ++ [.fixed ")"]))

theorem fill_append : fill write (x ++ y) = fill write x ++ fill write y := by
  induction x with
  | nil => simp [fill]
  | cons piece x ih => cases piece <;> simp [fill, ih, String.append_assoc]

theorem gaps_append : gaps (x ++ y) = gaps x ++ gaps y := by
  induction x with
  | nil => rfl
  | cons piece x ih => cases piece <;> simp [gaps, ih]

@[simp] theorem fill_negation : fill write (negation x) = "!" ++ fill write x := rfl

@[simp] theorem fill_operation {operator : String} :
    fill write (operation operator x y) =
      "(" ++ fill write x ++ operator ++ fill write y ++ ")" := by
  simp [operation, fill, fill_append, String.append_assoc]

@[simp] theorem gaps_operation {operator : String} :
    gaps (operation operator x y) = gaps x ++ gaps y := by
  simp [operation, gaps, gaps_append]

/-- Only what is written into the gaps of a frame matters. -/
theorem fill_congr (h : ∀ content ∈ gaps x, write content = write' content) :
    fill write x = fill write' x := by
  induction x with
  | nil => rfl
  | cons piece x ih =>
    cases piece with
    | fixed text => rw [fill, fill, ih h]
    | gap content =>
      obtain ⟨hcontent, hrest⟩ := List.forall_mem_cons.mp h
      rw [fill, fill, hcontent, ih hrest]

end Frame

end FuzzyLogic.Text
