import RootFinding.Report.Exchange
import RootFinding.Evaluator.Calls
import RootFinding.Evaluator.CentralDifference
import RootFinding.Evaluator.Script
import RootFinding.Newton.Solve
import RootFinding.Proofs.DenseMatrix
import RootFinding.Proofs.Evaluator.Answer
import RootFinding.Proofs.Evaluator.CentralDifference
import RootFinding.Proofs.Evaluator.Overwriting
import RootFinding.Proofs.Norm
import RootFinding.Proofs.Binary64.Order
import RootFinding.Proofs.Binary64.Arithmetic
import RootFinding.Proofs.Linear.Equation
import RootFinding.Proofs.Newton.Step
import RootFinding.Proofs.Newton.Recurrence
import RootFinding.Proofs.Newton.Verdict
import RootFinding.Proofs.Output.Journal
import RootFinding.Proofs.Output.Capture
import RootFinding.Proofs.Newton.Bisimulation
import RootFinding.Proofs.Newton.Tracing
import RootFinding.Proofs.Newton.Certificate
import RootFinding.Proofs.Newton.Continuation
import RootFinding.Proofs.Newton.Transcript
import RootFinding.Proofs.Newton.Truncation
import RootFinding.Proofs.Newton.Restart
import RootFinding.Proofs.Newton.StoredHistory
import RootFinding.Proofs.Evaluator.Memory
import RootFinding.Proofs.Report.Exchange
import RootFinding.Proofs.Newton.ReadBack
import RootFinding.Proofs.Newton.Kinds
import RootFinding.Proofs.Newton.Evaluations
import RootFinding.Proofs.Newton.CallCounts
import RootFinding.Proofs.Newton.EventLog
import RootFinding.Proofs.Linear.InPlace
import RootFinding.Proofs.Newton.Elimination
import RootFinding.Proofs.Binary64.Rounding
import RootFinding.Proofs.Linear.Choices
import RootFinding.Proofs.Newton.RepeatedRows
import RootFinding.Proofs.Newton.Reordering
import RootFinding.Proofs.Evaluator.Differences
import RootFinding.Proofs.Evaluator.Width
import RootFinding.Proofs.Binary64.Magnitude
import RootFinding.Proofs.Tolerance
import RootFinding.Proofs.Newton.StartUp
import RootFinding.Proofs.Report.History
import RootFinding.Proofs.Decimal.Parts
import RootFinding.Proofs.Decimal.ReadsAs
import RootFinding.Proofs.Decimal.NumberText
import RootFinding.Proofs.Report.Rendering
import RootFinding.Proofs.Newton.TraceLines
import RootFinding.Proofs.EuclideanNorm
import RootFinding.Proofs.Decimal.Scientific
import RootFinding.Proofs.Report.Columns
import RootFinding.Proofs.Report.SortedNames
