import Sexp.Expr.Compare
import Sexp.Expr.Depth
import Sexp.Expr.Encoding
import Sexp.Expr.Copy
import Sexp.Program.Run
import Sexp.Main
import Sexp.Proofs.Nesting
import Sexp.Proofs.Spine
import Sexp.Proofs.StrictRun
import Sexp.Proofs.LenientRun
import Sexp.Proofs.Lexemes
import Sexp.Proofs.ScanRun
import Sexp.Proofs.Layout
import Sexp.Proofs.Reading
import Sexp.Proofs.Grammar
import Sexp.Proofs.RoundTrip
import Sexp.Proofs.Salvage
import Sexp.Proofs.Agreement
import Sexp.Proofs.Viability
import Sexp.Proofs.Conservation
import Sexp.Proofs.TokenPositions
import Sexp.Proofs.Rows
import Sexp.Proofs.FilterRun
import Sexp.Proofs.Refilter
import Sexp.Proofs.Truncation
import Sexp.Proofs.Outcome
import Sexp.Proofs.UniqueDecoding
import Sexp.Proofs.AtomCheck
import Sexp.Proofs.Reports
import Sexp.Proofs.ErrorPositions
import Sexp.Proofs.Offsets
import Sexp.Proofs.Spacing
import Sexp.Proofs.TrailingText
import Sexp.Proofs.Closings
import Sexp.Proofs.DepthLimit
import Sexp.Proofs.Resumption
import Sexp.Proofs.Concatenation
import Sexp.Proofs.Framing
import Sexp.Proofs.LineEndings
import Sexp.Proofs.DumpDecoding
import Sexp.Proofs.Printing
import Sexp.Proofs.Comparison
import Sexp.Proofs.Copying
import Sexp.Proofs.TextDepth
import Sexp.Proofs.Levels
import Sexp.Proofs.QueueRun
