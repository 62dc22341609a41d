import MatrixCalc.Text.Lines
import MatrixCalc.Text.Utf8
import MatrixCalc.Expr.Printer
import MatrixCalc.Parse.Cursor
import MatrixCalc.Dense.Inverse
import MatrixCalc.Dense.DenseMatrix
import MatrixCalc.Dense.Closeness
import MatrixCalc.Value.Operators
import MatrixCalc.Value.Display
import MatrixCalc.Bindings
import MatrixCalc.Scope.Tree
import MatrixCalc.Evaluation.Answer
import MatrixCalc.Session
import MatrixCalc.Editor.Report
import MatrixCalc.Editor.Hover
import MatrixCalc.Editor.Settings
import MatrixCalc.Editor.Server
import MatrixCalc.Script.Check
import MatrixCalc.CommandLine.Program
import MatrixCalc.Main
import MatrixCalc.Proofs.Grammar.Expression
import MatrixCalc.Proofs.Evaluation.Tree
import MatrixCalc.Proofs.Dense.Exact
import MatrixCalc.Proofs.Dense.Factors
import MatrixCalc.Proofs.Dense.Echelon
import MatrixCalc.Proofs.Dense.GaussJordan
import MatrixCalc.Proofs.Grammar.Literal
import MatrixCalc.Proofs.Dense.Divisors
import MatrixCalc.Proofs.Evaluation.Failures
import MatrixCalc.Proofs.Evaluation.Scopes
import MatrixCalc.Proofs.Session.Isolation
import MatrixCalc.Proofs.Session.Totality
import MatrixCalc.Proofs.Dense.RowRank
import MatrixCalc.Proofs.Evaluation.Frame
import MatrixCalc.Proofs.Evaluation.Stored
import MatrixCalc.Proofs.Evaluation.Eager
import MatrixCalc.Proofs.Evaluation.Commute
import MatrixCalc.Proofs.Parse.Recovery
import MatrixCalc.Proofs.Session.Joined
import MatrixCalc.Proofs.Session.InOrder
import MatrixCalc.Proofs.Token.Front
import MatrixCalc.Proofs.Token.Tiling
import MatrixCalc.Proofs.Token.Spacing
import MatrixCalc.Proofs.Session.Spacing
import MatrixCalc.Proofs.Decimal.Reading
import MatrixCalc.Proofs.Decimal.ReadsBack
import MatrixCalc.Proofs.Decimal.Written
import MatrixCalc.Proofs.Editor.Cache
import MatrixCalc.Proofs.Editor.Delays
import MatrixCalc.Proofs.Editor.Published
import MatrixCalc.Proofs.Editor.Protocol
import MatrixCalc.Proofs.Scope.Nesting
import MatrixCalc.Proofs.Editor.Hover
import MatrixCalc.Proofs.Editor.Ranges
import MatrixCalc.Proofs.Dense.CycleParity
import MatrixCalc.Proofs.Dense.Determinant
import MatrixCalc.Proofs.Dense.Residues
import MatrixCalc.Proofs.Parse.Histories
import MatrixCalc.Proofs.Session.Progress
import MatrixCalc.Proofs.Session.Stopping
import MatrixCalc.Proofs.Editor.Configured
import MatrixCalc.Proofs.Dense.InPlace
import MatrixCalc.Proofs.Decimal.Rounding
import MatrixCalc.Proofs.Decimal.Arithmetic
import MatrixCalc.Proofs.Decimal.Nearest
import MatrixCalc.Proofs.Token.Numerals
import MatrixCalc.Proofs.Grammar.Numbers
import MatrixCalc.Proofs.Evaluation.Compact
import MatrixCalc.Proofs.Dense.Inversions
import MatrixCalc.Proofs.Dense.Exchanges
import MatrixCalc.Proofs.Token.NumberTokens
import MatrixCalc.Proofs.Value.Aligned
