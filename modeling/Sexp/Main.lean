import Sexp.Program.Run

/-!
# The command

Connects `Program.run` to the environment, the standard streams and the exit code.
-/

namespace Sexp.Command

/-- The bytes of a stream up to its end, after those in `read`. -/
partial def readToEnd (stream : IO.FS.Stream) (read : ByteArray) : IO ByteArray := do
  let chunk ← stream.read 65536
  if chunk.isEmpty then
    pure read
  else
    readToEnd stream (read ++ chunk)

/-- The system's own text and number of a fault in writing. -/
def describe : IO.Error → String
  | .resourceExhausted _ code details | .resourceVanished code details
  | .hardwareFault code details | .otherError code details =>
    details ++ " (os error " ++ toString code ++ ")"
  | fault => fault.toString

/-- Writes bytes, and returns the fault that kept them from being written. -/
def tryWrite (stream : IO.FS.Stream) (bytes : ByteArray) : IO (Option String) := do
  try
    stream.write bytes
    stream.flush
    pure none
  catch fault =>
    pure (some (describe fault))

end Sexp.Command

/-- Filters the standard input line by line. If the standard output cannot be written, the run is
reported as one whose first write fails. -/
def main : IO UInt32 := do
  let verbose ← IO.getEnv "SLISP_VERBOSE"
  let strict ← IO.getEnv "SLISP_STRICT"
  let input ← Sexp.Command.readToEnd (← IO.getStdin) .empty
  let run := Sexp.Program.run (verbose.map String.toUTF8) (strict.map String.toUTF8) input
  let planned := run {}
  let outcome ← match ← Sexp.Command.tryWrite (← IO.getStdout) planned.stdout with
    | none => pure planned
    | some reason => pure (run { room? := some 0, refusal := .report reason })
  for line in outcome.log ++ outcome.complaints do
    IO.eprintln line
  pure (UInt32.ofNat outcome.exitCode)
