import FuzzyLogic.Command.Console
import FuzzyLogic.Command.Report
import FuzzyLogic.Text.Document

/-!
# Command/Presentation — reports as text

A report is shown as a document for other programs, or as lines and tables for readers.  What a
reader sees goes through markup: texts that come from the user are escaped where they may hold tags.
-/

namespace FuzzyLogic.Report

/-! ## Documents -/

/-- A document that starts with a status. -/
def withStatus (status : String) (fields : List (String × Document)) : Document :=
  .record (("status", .text status) :: fields)

/-- The fields that all reports on a formula have. -/
def formulaFields (c : Compiled) : List (String × Document) :=
  [("expression", .text c.source), ("canonical", .text c.canonical)]

/-- A row of a comparison. -/
def comparisonDocument (row : Comparison) : Document :=
  .record [("opset", .text row.name), ("differentiable", .truth row.opset.differentiable),
    ("rendered", .text row.valuation.tree.render), ("value", .number row.valuation.value.raw)]

/-- An operation set. -/
def opsetDocument (name : String) (o : Opset) : Document :=
  .record [("name", .text name), ("class", .text o.className),
    ("differentiable", .truth o.differentiable), ("description", .text o.describe),
    ("notation", .list (o.formulas.map .text))]

/-- Where a fault lies in its source. -/
def positionFields : Fault → List (String × Document)
  | .syntaxFault f => [("position", .count f.position)]
  | _ => []

/-- A report as a document. -/
def document : Report → Document
  | evaluation c o v => withStatus "pass" <| formulaFields c ++
      [("rendered", .text v.tree.render), ("opset", .text o.name), ("value", .number v.value.raw)]
  | comparison c rows => withStatus "pass" <| formulaFields c ++
      [("results", .list (rows.map comparisonDocument))]
  | formula c => withStatus "pass" <| formulaFields c ++
      [("names", .list (c.names.map .text))]
  | listing opsets => withStatus "pass"
      [("opsets", .list (opsets.map fun (name, o) => opsetDocument name o))]
  | failure f _ => withStatus "fail" <|
      [("error", .text f.message), ("error_type", .text f.kind.label)] ++ positionFields f

/-! ## Lines and tables -/

/-- Whether gradients exist, in a table. -/
def differentiableCell (o : Opset) : String :=
  if o.differentiable then "yes" else Style.dim.apply "no"

/-- The table of an evaluation. -/
def evaluationTable (c : Compiled) (o : Opset) (v : Valuation) : Table where
  title := "Evaluation"
  header := []
  rows := [["Expression", c.source], ["Canonical", c.canonical], ["Rendered", v.tree.render],
    ["Opset", o.name], ["Value", Style.green.apply v.value.text]]

/-- The table of a comparison. -/
def comparisonTable (c : Compiled) (rows : List Comparison) : Table where
  title := c.canonical
  header := ["Opset", "Differentiable", "Value"]
  rows := rows.map fun row => [row.name, differentiableCell row.opset, row.valuation.value.text]

/-- The table of a listing. -/
def listingTable (opsets : List (String × Opset)) : Table where
  title := "Operation Sets"
  header := ["Name", "Differentiable", "Description", "Notation"]
  rows := opsets.map fun (name, o) =>
    [name, differentiableCell o, o.describe, "\n".intercalate o.formulas]

/-- The lines on a formula. -/
def formulaLines (c : Compiled) : List String :=
  (Style.boldGreen.apply "OK" ++ " " ++ c.canonical) ::
    if c.names.isEmpty then []
    else [Style.dim.apply ("Operands: " ++ Fault.commaList c.names)]

/-- What a line on a failure starts with. -/
def heading (text : String) : String := "\n" ++ Style.boldRed.apply text ++ " "

/-- Where a refusal lies in its source, for a reader. -/
def place (position : Nat) : String := " (position " ++ toString position ++ ")"

/-- The lines on a failure. -/
def failureLines (k : Console) : Fault → List String
  | .syntaxFault f =>
    [heading "Syntax error:" ++ k.escape f.reason ++ place f.position, k.escape f.diagram]
  | f => [heading "FAIL" ++ k.escape f.message]

/-- A report for a reader. -/
def readable (k : Console) : Report → Except Fault String
  | evaluation c o v => do
    v.value.checkWritten
    k.table (evaluationTable c o v)
  | comparison c rows => do
    rows.forM fun row => row.valuation.value.checkWritten
    k.table (comparisonTable c rows)
  | formula c => k.lines (formulaLines c)
  | listing opsets => k.table (listingTable opsets)
  | failure f _ => k.lines (failureLines k f)

/-- A report as it is printed. -/
def printed (k : Console) (json : Bool) (r : Report) : Except Fault String :=
  if json then r.document.printed else r.readable k

end FuzzyLogic.Report
