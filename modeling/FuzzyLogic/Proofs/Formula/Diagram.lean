import FuzzyLogic.Proofs.Formula.Reason
import Mathlib.Data.List.TakeWhile

/-!
# Proofs/Formula/Diagram — where the caret stands

What a refusal is about stands at its place (`Blames`): the token of which its reason is true, the
end of the text included, or the characters for which the text has no tokens.

The diagram shows the text behind two blanks and, on a line below, a caret behind two blanks more
than the place counts.  A line feed in the text begins a line of its own in the diagram
(`lines_diagram`), and columns count from it.  So **the diagram has two lines, and the caret stands
under what is refused, exactly for texts without line feeds** (`pointsOut_iff`); of other texts the
caret still keeps the column if all line feeds stand behind the place (`sameColumn_iff`).
-/

namespace FuzzyLogic

/-! ## Lines and columns -/

namespace Text

variable {cs ds : List Char} {i : Nat}

/-- The lines of a text, between its line feeds. -/
def lines (cs : List Char) : List (List Char) := cs.splitOn '\n'

/-- The column of a place: how many characters stand before it in its line. -/
def column (cs : List Char) (i : Nat) : Nat := ((cs.take i).reverse.takeWhile (· != '\n')).length

theorem lines_append (cs ds : List Char) : lines (cs ++ '\n' :: ds) = lines cs ++ lines ds :=
  List.splitOnP_append_cons cs ds (beq_self_eq_true '\n')

theorem lines_of_not_mem (h : '\n' ∉ cs) : lines cs = [cs] := List.splitOn_eq_singleton h

/-- A text has one line more than line feeds. -/
theorem length_lines (cs : List Char) : (lines cs).length = cs.count '\n' + 1 := by
  unfold lines List.splitOn
  induction cs with
  | nil => rfl
  | cons c cs ih =>
    rw [List.splitOnP_cons_eq_if_modifyHead, List.count_cons]
    split
    · rw [List.length_cons, ih]
    · rw [List.length_modifyHead, ih, Nat.add_zero]

/-- What stands behind a place plays no part in its column. -/
theorem column_append_left (h : i ≤ cs.length) (ds : List Char) :
    column (cs ++ ds) i = column cs i := by
  rw [column, column, List.take_append_of_le_length h]

/-- A place counts as many columns as characters exactly if no line feed stands before it. -/
theorem column_eq_iff (h : i ≤ cs.length) : column cs i = i ↔ '\n' ∉ cs.take i := by
  have hlength : (cs.take i).reverse.length = i := by
    rw [List.length_reverse, List.length_take, Nat.min_eq_left h]
  constructor
  · intro hcolumn hmem
    have hall := (List.takeWhile_sublist (· != '\n')).eq_of_length (hcolumn.trans hlength.symm)
    have hne := List.takeWhile_eq_self_iff.mp hall '\n' (List.mem_reverse.mpr hmem)
    exact absurd hne (by decide)
  · intro hmem
    have hall : (cs.take i).reverse.takeWhile (· != '\n') = (cs.take i).reverse := by
      refine List.takeWhile_eq_self_iff.mpr fun c hc => bne_iff_ne.mpr ?_
      rintro rfl
      exact hmem (List.mem_reverse.mp hc)
    rw [column, hall, hlength]

/-- Columns count from the last line feed. -/
theorem column_append_right (h : i ≤ ds.length) (hds : '\n' ∉ ds.take i) (cs : List Char) :
    column (cs ++ '\n' :: ds) (cs.length + (i + 1)) = i := by
  have hall : ∀ c ∈ (ds.take i).reverse, (c != '\n') = true := fun c hc => by
    refine bne_iff_ne.mpr ?_
    rintro rfl
    exact hds (List.mem_reverse.mp hc)
  rw [column, List.take_length_add_append, List.take_succ_cons, List.reverse_append,
    List.reverse_cons, List.append_assoc, List.takeWhile_append_of_pos hall,
    List.singleton_append, List.takeWhile_cons_of_neg (by decide), List.append_nil,
    List.length_reverse, List.length_take, Nat.min_eq_left h]

end Text

/-! ## The diagram -/

namespace SyntaxFault

open Text

variable {f : SyntaxFault}

/-- The line of a caret at a place. -/
def caretLine (position : Nat) : List Char := List.replicate (position + 2) ' ' ++ ['^']

/-- The diagram has two lines, and the caret stands in the second one behind as many blanks as
characters stand in the first one before what is at the place. -/
def PointsOut (f : SyntaxFault) : Prop :=
  ∃ front, lines f.diagram.toList =
    [front ++ f.source.toList.drop f.position, List.replicate front.length ' ' ++ ['^']]

/-- The text as the diagram shows it. -/
def shown (f : SyntaxFault) : List Char := ' ' :: ' ' :: f.source.toList

/-- What the diagram shows at the place stands in the column of the caret, its last character. -/
def SameColumn (f : SyntaxFault) : Prop :=
  column f.diagram.toList (f.position + 2) = column f.diagram.toList (f.diagram.length - 1)

theorem toList_diagram (f : SyntaxFault) :
    f.diagram.toList = f.shown ++ '\n' :: caretLine f.position := by
  simp [diagram, shown, caretLine, List.replicate_succ]

theorem newline_not_mem_caretLine (position : Nat) : '\n' ∉ caretLine position := by
  simp [caretLine]

/-- **The lines of a diagram** are those of the text, behind two blanks, and that of the caret. -/
theorem lines_diagram (f : SyntaxFault) :
    lines f.diagram.toList = lines f.shown ++ [caretLine f.position] := by
  rw [toList_diagram, lines_append, lines_of_not_mem (newline_not_mem_caretLine _)]

/-- **The caret stands in the column that its place counts.** -/
theorem column_caret (f : SyntaxFault) :
    column f.diagram.toList (f.diagram.length - 1) = f.position + 2 := by
  have hlength : f.diagram.length - 1 = f.shown.length + (f.position + 2 + 1) := by
    rw [← String.length_toList, toList_diagram]
    simp [caretLine]
  have hfront : (caretLine f.position).length = f.position + 3 := by simp [caretLine]
  rw [hlength, toList_diagram]
  refine column_append_right (by omega) (fun hmem => ?_) _
  exact newline_not_mem_caretLine _ (List.mem_of_mem_take hmem)

theorem sameColumn_iff (h : f.position ≤ f.source.length) :
    f.SameColumn ↔ '\n' ∉ f.source.toList.take f.position := by
  have hshown : f.position + 2 ≤ f.shown.length := by
    rw [shown, List.length_cons, List.length_cons, String.length_toList]
    omega
  rw [SameColumn, column_caret, toList_diagram, column_append_left hshown, column_eq_iff hshown]
  simp [shown]

theorem pointsOut_iff (h : f.position ≤ f.source.length) :
    f.PointsOut ↔ '\n' ∉ f.source.toList := by
  constructor
  · rintro ⟨front, hlines⟩ hmem
    -- the text has two lines at least, which makes three
    have hlength := congrArg List.length hlines
    rw [lines_diagram, List.length_append, length_lines] at hlength
    have hpos := List.count_pos_iff.mpr (List.mem_cons_of_mem ' ' (List.mem_cons_of_mem ' ' hmem))
    simp only [List.length_cons, List.length_nil, shown] at hlength
    omega
  · intro hmem
    have hshown : '\n' ∉ f.shown := by simpa [shown] using hmem
    refine ⟨' ' :: ' ' :: f.source.toList.take f.position, ?_⟩
    rw [lines_diagram, lines_of_not_mem hshown]
    simp [shown, caretLine, String.length_toList, h]

end SyntaxFault

/-! ## What stands at the place -/

namespace Formula

open Text (lines)

variable {source : String} {fault : SyntaxFault}

/-- What the refusal of a text is about stands at its place: the token of which its reason is true,
the end of the text included, or the characters for which the text has no tokens. -/
inductive Blames (source : String) (r : Refusal) : Prop
  | token {ts t} : lexemes source = .ok ts → Justified source.length ts r →
      t ∈ ts ++ [Token.stop source.length] → r.position = t.position → Blames source r
  | characters : Token.Blames source.toList r → Blames source r

/-- A reason is reported where the token stands that it is said of. -/
theorem Justified.exists_token {length : Nat} {ts : List Token} {r : Refusal}
    (h : Justified length ts r) : ∃ t ∈ ts ++ [Token.stop length], r.position = t.position := by
  cases h with
  | empty | missingOperand _ => exact ⟨Token.stop length, by simp, rfl⟩
  | _ => exact ⟨_, by simp, rfl⟩

theorem blames_of_parse (h : parse source = .error fault) : Blames source fault.refusal := by
  cases hts : lexemes source with
  | ok ts =>
    have hjustified := justified_of_parse hts h
    obtain ⟨t, ht, hposition⟩ := hjustified.exists_token
    exact .token hts hjustified ht hposition
  | error fault' =>
    rw [parse, hts] at h
    obtain rfl := Except.error.inj h
    obtain ⟨r, hr, rfl⟩ := Outcome.mapError_eq_error.mp hts
    exact .characters (Token.blames_of_scan hr)

theorem Blames.le_length {r : Refusal} (h : Blames source r) : r.position ≤ source.length := by
  cases h with
  | @token ts t hts _ ht hposition =>
    rw [hposition]
    rcases List.mem_append.mp ht with ht | ht
    · have hle := (lexemes_eq_ok_iff.mp hts).position_le t ht
      rwa [Nat.zero_add, String.length_toList] at hle
    · obtain rfl := List.mem_singleton.mp ht
      exact Nat.le_refl _
  | characters hblames =>
    rw [← String.length_toList]
    cases hblames with
    | stray hcs _ => simp [hcs]
    | run hcs _ _ => simp [hcs]
    | point hcs _ => simp [hcs]

/-- **The diagram of a refused text.**

* What the refusal is about stands at its place, within the text.
* The diagram consists of the lines of the text, behind two blanks, and one line with the caret,
  which stands in the column that the place counts, behind two blanks.
* It has two lines, and the caret stands under what is at the place, exactly if the text has no line
  feed; whatever else the text has in it plays no part.
* What is at the place stands in the same column as the caret exactly if no line feed is before
  it. -/
theorem diagram_of_refused (h : parse source = .error fault) :
    fault.source = source ∧ Blames source fault.refusal ∧ fault.position ≤ source.length ∧
      lines fault.diagram.toList =
        lines (' ' :: ' ' :: source.toList) ++ [List.replicate (fault.position + 2) ' ' ++ ['^']] ∧
      (fault.PointsOut ↔ '\n' ∉ source.toList) ∧
      (fault.SameColumn ↔ '\n' ∉ source.toList.take fault.position) := by
  have hblames := blames_of_parse h
  have hle : fault.position ≤ source.length := hblames.le_length
  obtain rfl := source_of_parse_error h
  exact ⟨rfl, hblames, hle, fault.lines_diagram, SyntaxFault.pointsOut_iff hle,
    SyntaxFault.sameColumn_iff hle⟩

/-- The diagram of `a b` points out the operand that lacks its operator. -/
theorem diagram_of_a_b : ∃ fault, parse "a b" = .error fault ∧ fault.position = 2 ∧
    lines fault.diagram.toList = ["  a b".toList, "    ^".toList] ∧ fault.PointsOut ∧
    fault.SameColumn := by
  have hparse : parse "a b" =
      .error ⟨"a b", refuse (.missingOperator ⟨.ident, "b", 2⟩) ⟨.ident, "b", 2⟩⟩ := by cbv
  obtain ⟨-, -, -, hlines, hpoints, hcolumn⟩ := diagram_of_refused hparse
  exact ⟨_, hparse, rfl, hlines.trans (by decide), hpoints.mpr (by decide),
    hcolumn.mpr (by decide)⟩

/-- The diagram of a text of two lines that ends with an operator has three, and its caret points
past the operator. -/
theorem diagram_of_two_lines : ∃ fault, parse "a\n&" = .error fault ∧ fault.position = 2 ∧
    fault.diagram = "  a\n&\n    ^" ∧ ¬ fault.PointsOut ∧ ¬ fault.SameColumn := by
  have hparse : parse "a\n&" =
      .error ⟨"a\n&", refuse (.trailingOperator ⟨.and, "&", 2⟩) ⟨.and, "&", 2⟩⟩ := by cbv
  refine ⟨_, hparse, rfl, by decide, ?_, ?_⟩
  · rw [SyntaxFault.pointsOut_iff (by decide)]
    decide
  · rw [SyntaxFault.sameColumn_iff (by decide)]
    decide

end Formula

end FuzzyLogic
