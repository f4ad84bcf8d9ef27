import FuzzyLogic.Main
import FuzzyLogic.Proofs.Command.Comparison
import FuzzyLogic.Proofs.Command.OperandName
import FuzzyLogic.Proofs.Decimal.PlainText
import FuzzyLogic.Proofs.Expr.HookCalls
import FuzzyLogic.Proofs.Expr.Labelling
import FuzzyLogic.Proofs.Expr.Wrapping
import FuzzyLogic.Proofs.Formula.Diagram
import FuzzyLogic.Proofs.Formula.Layout
import FuzzyLogic.Proofs.Formula.Nodes
import FuzzyLogic.Proofs.Formula.Progress
import FuzzyLogic.Proofs.Formula.Reason
import FuzzyLogic.Proofs.Formula.Recency
import FuzzyLogic.Proofs.Formula.Rendering
import FuzzyLogic.Proofs.Log.OneSetup
import FuzzyLogic.Proofs.Opset.CatalogueNegation
import FuzzyLogic.Proofs.Opset.History
import FuzzyLogic.Proofs.Session.Acceptance
import FuzzyLogic.Proofs.Session.Building
import FuzzyLogic.Proofs.Session.Construction
import FuzzyLogic.Proofs.Session.Operator
import FuzzyLogic.Proofs.Session.Ordering
import FuzzyLogic.Proofs.Session.Unbound
import FuzzyLogic.Proofs.Settings.Reloading
