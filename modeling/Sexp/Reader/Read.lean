import Sexp.Token.Scan
import Sexp.Parse.Lenient
import Sexp.Parse.Strict

/-!
# Reading

A reader scans a source and parses the tokens, in the way that its settings say.

* `Reader.read_of_not_strict`: a lenient reader never rejects a source.
* `Expr.read_eq`: `Expr.read` is what the lenient reader returns.
-/

namespace Sexp

def Reader.read (r : Reader) (src : String) : Logged (Except ReadError Expr) := do
  let tokens ← scan r.keepTrailing src
  if r.isStrict then
    match Strict.parse r.maxDepth tokens.toList with
    | .ok e => pure (.ok e)
    | .error error =>
      Logged.emit (.strictReadFailed error)
      pure (.error error)
  else
    let e ← Lenient.parse tokens.toList
    pure (.ok e)

/-- Reads whatever can be salvaged from a source. Text that runs up to its end is dropped. -/
def Expr.read (src : String) : Logged Expr := do
  let tokens ← scan false src
  Lenient.parse tokens.toList

/-- Reads a source that is exactly one expression. -/
def Expr.readStrict (src : String) : Logged (Except ReadError Expr) :=
  Reader.strict.read src

/-! ## Lenient reading -/

theorem Reader.read_of_not_strict {r : Reader} (h : r.isStrict = false) (src : String) :
    (r.read src).value =
      .ok (Lenient.parse (scan r.keepTrailing src).value.toList).value := by
  simp [Reader.read, h, Logged.value_bind, Logged.value_map]

theorem Expr.read_eq (src : String) : (Reader.lenient.read src).value = .ok (Expr.read src).value :=
  Reader.read_of_not_strict rfl src

end Sexp
