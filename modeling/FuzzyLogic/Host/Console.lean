import FuzzyLogic.Host.Layout
import FuzzyLogic.Host.Markup

/-!
# Host/Console — the console that the program runs on

Lines and the texts of tables are read as markup, and tables are laid out.  There is no colour: a
style leaves no trace.
-/

namespace FuzzyLogic.Console

/-- A markup as a cell of a table. -/
def cell (markup : String) : Except Fault String := (Markup.plain markup).map Markup.displayed

/-- The console of the program. -/
def standard : Console where
  escape := Markup.escape
  line := Markup.line
  table t := do
    let title ← cell t.title
    let header ← t.header.mapM cell
    let rows ← t.rows.mapM fun row => row.mapM cell
    return Table.written ⟨title, header, rows⟩

end FuzzyLogic.Console
