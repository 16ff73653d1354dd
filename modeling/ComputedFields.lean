import ComputedFields.Engine.Definition
import ComputedFields.Engine.Recomputation
import ComputedFields.Main
import ComputedFields.Proofs.Engine.Bulk
import ComputedFields.Proofs.Engine.Changes
import ComputedFields.Proofs.Engine.InPlace
import ComputedFields.Proofs.Engine.Invalidation
import ComputedFields.Proofs.Formula.Layout
import ComputedFields.Proofs.Formula.Limits
import ComputedFields.Proofs.Formula.RoundTrip
import ComputedFields.Proofs.Formula.Scale
import ComputedFields.Proofs.Graph.Countdown
import ComputedFields.Proofs.Graph.Cycles
import ComputedFields.Proofs.Graph.Indexed
import ComputedFields.Proofs.Schema.Indexed
import ComputedFields.Proofs.Guarded.Evaluation
import ComputedFields.Proofs.Library.Errors
import ComputedFields.Proofs.Value.FirstError
import ComputedFields.Proofs.Decimal.Rational
import ComputedFields.Proofs.Library.Remainder
import ComputedFields.Proofs.Library.Rounding
import ComputedFields.Proofs.Library.Coercions
import ComputedFields.Proofs.Library.Concatenation
import ComputedFields.Proofs.Formula.OneItem
import ComputedFields.Proofs.Library.DateSteps
import ComputedFields.Proofs.Formula.Comparison
import ComputedFields.Proofs.CommandLine.Values
import ComputedFields.Proofs.Formula.Blame
import ComputedFields.Proofs.Formula.Growth
import ComputedFields.Proofs.Formula.Reread
import ComputedFields.Proofs.Engine.Defining
import ComputedFields.Proofs.Library.Search
import ComputedFields.Proofs.Library.Slices
import ComputedFields.Proofs.Library.Averages
import ComputedFields.Proofs.Library.Reordering
import ComputedFields.Proofs.Library.DateDifferences
import ComputedFields.Proofs.Value.Stored
import ComputedFields.Proofs.Calendar.WrittenSpans
import ComputedFields.Proofs.Library.Trimming
import ComputedFields.Proofs.Engine.CellOrder
import ComputedFields.Proofs.Engine.Walk
import ComputedFields.Proofs.Engine.Cache
