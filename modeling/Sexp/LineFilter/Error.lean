import Sexp.ReadError
import Sexp.Stream.Sink

/-!
# Failures of the line filter

The filter fails when its input cannot be read, when a line is not an expression, or when its output
cannot be written. Each has an exit code of its own.
-/

namespace Sexp

/-- Why the filter failed. -/
inductive FilterError where
  | input (fault : StreamFault)
  /-- The reader rejects line `lineno`, counted from 1. -/
  | parse (lineno : Nat) (error : ReadError)
  | output (fault : StreamFault)
  deriving DecidableEq

namespace FilterError

/-- The message of the fault or error behind the failure. -/
def cause : FilterError → String
  | input fault | output fault => fault.message
  | parse _ error => error.message

/-- The message for the user; a rejected line is named in front of the offset. -/
def message : FilterError → String
  | input fault => "unable to read input: " ++ fault.message
  | parse lineno error => toString lineno ++ ":" ++ error.message
  | output fault => "unable to write output: " ++ fault.message

/-- The code with which the program ends. -/
def exitCode : FilterError → Nat
  | input _ => 1
  | parse .. => 2
  | output _ => 3

end FilterError

end Sexp
