import ArithScript.Main
import ArithScript.Proofs.Interchange
import ArithScript.Proofs.Reduction
import ArithScript.Proofs.Effects
import ArithScript.Proofs.NumberText
import ArithScript.Proofs.Rendering
import ArithScript.Proofs.Juxtaposition
import ArithScript.Proofs.Statements
import ArithScript.Proofs.Printing
import ArithScript.Proofs.Sessions
import ArithScript.Proofs.Failures
import ArithScript.Proofs.Repetition
import ArithScript.Proofs.Isolation
import ArithScript.Proofs.Locality
import ArithScript.Proofs.Staging
import ArithScript.Proofs.Phases
import ArithScript.Proofs.Registry
import ArithScript.Proofs.Concatenation
import ArithScript.Proofs.Reports
import ArithScript.Proofs.ReductionErrors
import ArithScript.Proofs.SingleStatements
import ArithScript.Proofs.Starts
import ArithScript.Proofs.VisibleTexts
import ArithScript.Proofs.Spelling
import ArithScript.Proofs.Spacing
import ArithScript.Proofs.RoundingOrder
import ArithScript.Proofs.ShortestDecimals
import ArithScript.Proofs.PositionalTexts
import ArithScript.Proofs.DeclaredElements
import ArithScript.Proofs.Sums
import ArithScript.Proofs.Totals
import ArithScript.Proofs.Extremes
import ArithScript.Proofs.Definitions
import ArithScript.Proofs.Classification
import ArithScript.Proofs.LineOffsets
import ArithScript.Proofs.Leftovers
import ArithScript.Proofs.JsonLines
