import FormLogic.Document.Form
import FormLogic.Form.Pass
import FormLogic.Rule.Text
import FormLogic.Proofs.Path.Overlap
import FormLogic.Proofs.Snapshot.Frame
import FormLogic.Proofs.Snapshot.Commute
import FormLogic.Proofs.Snapshot.Lookup
import FormLogic.Proofs.Value.NaN
import FormLogic.Proofs.Value.Extent
import FormLogic.Proofs.Value.Agreement
import FormLogic.Proofs.Value.Rounding
import FormLogic.Proofs.Value.Overflow
import FormLogic.Proofs.Value.ReadBack
import FormLogic.Proofs.Lexeme.Name
import FormLogic.Proofs.Lexeme.Literal
import FormLogic.Proofs.Lexeme.Extent
import FormLogic.Proofs.Scan.Cuts
import FormLogic.Proofs.Scan.Pieces
import FormLogic.Proofs.Condition.Grammar
import FormLogic.Proofs.Condition.Completeness
import FormLogic.Proofs.Condition.Soundness
import FormLogic.Proofs.Condition.Refusal
import FormLogic.Proofs.Rule.Reduced
import FormLogic.Proofs.Condition.Spelling
import FormLogic.Proofs.Condition.Printing
import FormLogic.Proofs.Condition.Reprinting
import FormLogic.Proofs.Condition.Fields
import FormLogic.Proofs.Condition.Pieces
import FormLogic.Proofs.Formula.Names
import FormLogic.Proofs.Formula.Dependence
import FormLogic.Proofs.Formula.SelfAgreement
import FormLogic.Proofs.Formula.Course
import FormLogic.Proofs.Formula.Alike
import FormLogic.Proofs.Formula.Grammar
import FormLogic.Proofs.Formula.Soundness
import FormLogic.Proofs.Formula.Completeness
import FormLogic.Proofs.Formula.Depth
import FormLogic.Proofs.Formula.Identifiers
import FormLogic.Proofs.Formula.Declarations
import FormLogic.Proofs.Formula.Height
import FormLogic.Proofs.Calculation.Closure
import FormLogic.Proofs.Calculation.Order
import FormLogic.Proofs.Calculation.Rank
import FormLogic.Proofs.Calculation.Outcome
import FormLogic.Proofs.Calculation.Stability
import FormLogic.Proofs.Form.Arrangement
import FormLogic.Proofs.Form.FirstProblem
import FormLogic.Proofs.Form.Views
import FormLogic.Proofs.Form.Settling
import FormLogic.Proofs.Form.FixedPoint
import FormLogic.Proofs.Form.Account
import FormLogic.Proofs.Form.Restriction
import FormLogic.Proofs.Form.Schedule
import FormLogic.Proofs.Form.HostLoop
import FormLogic.Proofs.Form.Confluence
import FormLogic.Proofs.Form.Influence
import FormLogic.Proofs.Form.StaleValues
import FormLogic.Proofs.Json.Content
import FormLogic.Proofs.Json.Numeral
import FormLogic.Proofs.Json.RoundTrip
import FormLogic.Proofs.Document.Value
import FormLogic.Proofs.Document.Rule
import FormLogic.Proofs.Document.Form
import FormLogic.Proofs.Formula.Unbounded
import FormLogic.Proofs.Form.Watched
import FormLogic.Proofs.Value.Denotation
import FormLogic.Proofs.Snapshot.Resemblance
import FormLogic.Proofs.Form.Visibility
import FormLogic.Proofs.Form.Footprint
import FormLogic.Proofs.Rule.Combination
import FormLogic.Proofs.Lexeme.Range
import FormLogic.Proofs.Document.Denotation
import FormLogic.Proofs.Document.Members
import FormLogic.Proofs.Document.Shape
import FormLogic.Proofs.Condition.Nesting
