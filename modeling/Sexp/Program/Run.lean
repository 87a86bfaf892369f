import Sexp.LineFilter.Run
import Sexp.Program.Settings

/-!
# The program as a function

From the variables of the environment, the bytes of the standard input and a sink for the standard
output to the exit code, the output, the error lines and the log. The whole input is decoded before
the first line is read, so a fault anywhere in it leaves the output empty.
-/

namespace Sexp.Program

/-- What a run of the program leaves behind. -/
structure Outcome where
  exitCode : Nat
  stdout : ByteArray
  /-- The lines for the user on the standard error output. -/
  complaints : List String
  /-- The lines of the log. -/
  log : List String

/-- Runs the filter on bytes that are yet to be decoded. -/
def filterBytes (reader : Reader) (input : ByteArray) (stdout : Sink) : LineFilter.Report :=
  match String.fromUTF8? input with
  | none => ⟨.error (.input .notUtf8), stdout, #[]⟩
  | some text => LineFilter.run reader text stdout

/-- Runs the program. A variable whose value is not UTF-8 counts as unset. -/
def run (verbose strict : Option ByteArray) (input : ByteArray) (stdout : Sink) : Outcome :=
  let settings := Settings.ofVars (verbose.bind String.fromUTF8?) (strict.bind String.fromUTF8?)
  let report := filterBytes settings.reader input stdout
  let events := #[.inputStarted settings.reader] ++ report.events
  let logOf (events : Array Event) :=
    (shownAt settings.verbosity.level events).toList.map Event.line
  match report.result with
  | .ok count => ⟨0, report.sink.written, [], logOf (events.push (.finished count))⟩
  | .error error =>
    ⟨error.exitCode, report.sink.written, [error.message], logOf events⟩

end Sexp.Program
