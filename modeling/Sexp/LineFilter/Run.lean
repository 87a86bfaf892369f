import Sexp.Text.Blank
import Sexp.Text.Lines
import Sexp.Reader.Read
import Sexp.LineFilter.Error

/-!
# The line filter

Every line of the input that is not blank is read as one expression, and its canonical text is
written on a line of its own. The filter stops at the first line that the reader rejects and at the
first write that fails.

* `runFrom_nil`, `runFrom_blank`: at the end the count is returned, and a blank line only counts as
  a line.
-/

namespace Sexp.LineFilter

/-- How a run ended, what the sink then holds, and what was reported on the way. -/
structure Report where
  /-- The number of expressions written. -/
  result : Except FilterError Nat
  sink : Sink
  events : Array Event

/-- Filters the lines, the first of which is line `lineno`, after `written` expressions. -/
def runFrom (reader : Reader) (lineno written : Nat) (sink : Sink) (events : Array Event) :
    List String → Report
  | [] => ⟨.ok written, sink, events⟩
  | line :: lines =>
    if Text.isBlank line then
      runFrom reader (lineno + 1) written sink events lines
    else
      let read := reader.read line
      let events := events ++ read.events
      match read.value with
      | .error error => ⟨.error (.parse lineno error), sink, events⟩
      | .ok tree =>
        let events := events.push (.lineRead lineno tree)
        match sink.writeTexts (tree.pieces .canonical ++ ["\n"]) with
        | (sink, some fault) => ⟨.error (.output fault), sink, events⟩
        | (sink, none) => runFrom reader (lineno + 1) (written + 1) sink events lines

/-- Filters a whole input. -/
def run (reader : Reader) (input : String) (sink : Sink) : Report :=
  runFrom reader 1 0 sink #[] (Text.lines input)

/-! ## Steps without an expression -/

theorem runFrom_nil (reader : Reader) (lineno written : Nat) (sink : Sink)
    (events : Array Event) :
    runFrom reader lineno written sink events [] = ⟨.ok written, sink, events⟩ := rfl

theorem runFrom_blank {line : String} (h : Text.isBlank line = true) (reader : Reader)
    (lineno written : Nat) (sink : Sink) (events : Array Event) (lines : List String) :
    runFrom reader lineno written sink events (line :: lines) =
      runFrom reader (lineno + 1) written sink events lines := by
  simp [runFrom, h]

end Sexp.LineFilter
