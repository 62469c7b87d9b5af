import RowPredicate.Index.Scan
import RowPredicate.Expr.Optimize
import RowPredicate.Source
import RowPredicate.Proofs.Reading
import RowPredicate.Proofs.Rewriting.Rules
import RowPredicate.Proofs.Rewriting.Outcome
import RowPredicate.Proofs.Order
import RowPredicate.Proofs.Meaning
import RowPredicate.Proofs.Sameness
import RowPredicate.Proofs.SameValue
import RowPredicate.Proofs.Conjuncts
import RowPredicate.Proofs.Harvest
import RowPredicate.Proofs.WholeDouble
import RowPredicate.Proofs.Carrying
import RowPredicate.Proofs.Rewriting.Exact
import RowPredicate.Proofs.Typing
import RowPredicate.Proofs.Rewriting.Selection
import RowPredicate.Proofs.Rewriting.Derived
import RowPredicate.Proofs.Rewriting.Recorded
import RowPredicate.Proofs.Scan.Bounds
import RowPredicate.Proofs.Scan.Exact
import RowPredicate.Proofs.Scan.Selected
import RowPredicate.Proofs.Parts
import RowPredicate.Proofs.Rewriting.Normal
import RowPredicate.Proofs.Rewriting.Idempotent
import RowPredicate.Proofs.Failures
import RowPredicate.Proofs.Rewriting.Failures
import RowPredicate.Proofs.Scan.Failures
import RowPredicate.Proofs.Rewriting.Progress
import RowPredicate.Proofs.Evaluable
import RowPredicate.Proofs.Rewriting.Evaluable
import RowPredicate.Proofs.WrittenOut
import RowPredicate.Proofs.Rewriting.StaticType
import RowPredicate.Proofs.Visibility
import RowPredicate.Proofs.PushDown
import RowPredicate.Proofs.Rewriting.Noninterference
import RowPredicate.Proofs.Rewriting.Cost
import RowPredicate.Proofs.Rewriting.Descent
import RowPredicate.Proofs.Preorder
import RowPredicate.Proofs.Scan.WellFormed
import RowPredicate.Proofs.Rewriting.Collapse
import RowPredicate.Proofs.Rewriting.Pushed
import RowPredicate.Proofs.ExactDouble
import RowPredicate.Proofs.RoundedDouble
import RowPredicate.Proofs.IntegerConversion
import RowPredicate.Proofs.ReadBack
import RowPredicate.Proofs.Trimming
import RowPredicate.Proofs.Settings.Segments
import RowPredicate.Proofs.Settings.Assignments
import RowPredicate.Proofs.TextConversion
