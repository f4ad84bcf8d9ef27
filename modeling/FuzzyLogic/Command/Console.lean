import FuzzyLogic.Fault

/-!
# Command/Console — where reports are shown

A console shows lines and tables of **markup**: tags stand in square brackets and give a stretch of
text a style, and a backslash escapes.  What the markups look like, and which of them can be shown at
all, is the console's own matter.

Reports ask little of it (`Console.Lawful`).  Text without brackets and backslashes stands for
itself, also in a style that is closed behind it; escaping makes any text one that can be shown; and
a table is shown if all its texts can be.
-/

namespace FuzzyLogic

/-! ## Markup -/

/-- The styles of reports. -/
inductive Style
  | dim
  | green
  | yellow
  | boldGreen
  | boldRed

namespace Style

/-- What stands between the brackets of a style's tag. -/
def tag : Style → String
  | dim => "dim"
  | green => "green"
  | yellow => "yellow"
  | boldGreen => "bold green"
  | boldRed => "bold red"

/-- A text in a style, which is closed behind it. -/
def apply (style : Style) (text : String) : String := "[" ++ style.tag ++ "]" ++ text ++ "[/]"

end Style

/-- Neither brackets nor backslashes are in a text. -/
def Unmarked (text : String) : Prop := ∀ c ∈ text.toList, c ≠ '[' ∧ c ≠ ']' ∧ c ≠ '\\'

instance (text : String) : Decidable (Unmarked text) :=
  decidable_of_iff (text.toList.all fun c => c != '[' && c != ']' && c != '\\')
    (by simp [Unmarked, and_assoc])

/-- Unmarked texts in a row, some of them in a style. -/
inductive Readable : String → Prop
  | empty : Readable ""
  | plain {markup text : String} : Readable markup → Unmarked text → Readable (markup ++ text)
  | styled {markup text : String} (style : Style) : Readable markup → Unmarked text →
    Readable (markup ++ style.apply text)

/-! ## Consoles -/

/-- What is laid out in rows and columns.  Its texts are markups. -/
structure Table where
  title : String
  /-- No cells for a table without a header. -/
  header : List String
  rows : List (List String)

namespace Table

/-- The texts in the columns of a table. -/
def cells (t : Table) : List String := t.header ++ t.rows.flatten

/-- The texts of a table. -/
def texts (t : Table) : List String := t.title :: t.cells

end Table

/-- Where reports are shown. -/
structure Console where
  /-- Writes a text so that it stands for itself. -/
  escape : String → String
  /-- A markup as a line. -/
  line : String → Except Fault String
  /-- A table of markups. -/
  table : Table → Except Fault String

namespace Console

/-- Lines of markup. -/
def lines (k : Console) (markups : List String) : Except Fault String :=
  (markups.mapM k.line).map String.join

/-- A markup can be shown. -/
def Shows (k : Console) (markup : String) : Prop := ∃ shown, k.line markup = .ok shown

/-- What reports ask of a console. -/
structure Lawful (k : Console) : Prop where
  /-- Unmarked texts can be shown, also in a style. -/
  shows_readable {markup : String} : Readable markup → k.Shows markup
  /-- So can any text that is escaped, between such texts. -/
  shows_escape {before after : String} (text : String) : Readable before → Unmarked after →
    k.Shows (before ++ k.escape text ++ after)
  /-- A table with something in its columns is shown exactly if all its texts can be. -/
  table_iff (t : Table) : t.cells ≠ [] →
    ((∃ shown, k.table t = .ok shown) ↔ ∀ markup ∈ t.texts, k.Shows markup)

end Console

end FuzzyLogic
