import Sexp.Expr.Print
import Sexp.ReadError
import Sexp.Reader.Basic

/-!
# Events

What the reader and the line filter report while they work, as data: an event is a cause with its
particulars, and its level, target, message and fields are functions of it. `Logged` is a result
together with the events on the way to it, oldest first.

* `LawfulMonad Logged`: events only ever accumulate, in order.
-/

namespace Sexp

/-- How much an event matters, from detail to warning. -/
inductive Level where
  | trace
  | debug
  | info
  | warn
  deriving DecidableEq

namespace Level

def rank : Level → Nat
  | trace => 0
  | debug => 1
  | info => 2
  | warn => 3

def label : Level → String
  | trace => "TRACE"
  | debug => "DEBUG"
  | info => "INFO"
  | warn => "WARN"

/-- Whether a log that is kept at level `threshold` shows events of the level `level`. -/
def shows (threshold level : Level) : Bool :=
  threshold.rank ≤ level.rank

end Level

/-- Something worth reporting, with its particulars. -/
inductive Event where
  /-- Text at the end of a source was dropped. -/
  | unterminatedText (dropped : String) (offset : Nat)
  /-- A source was split into tokens. -/
  | tokensScanned (count : Nat)
  /-- The lenient reader gave up a top-level atom for what followed it. -/
  | topLevelReplaced (discarded : Expr)
  /-- A stray closing parenthesis kept the lenient reader from the tokens after it. -/
  | strayClose (offset dropped : Nat)
  /-- The lenient reader closed lists at the end of the tokens. -/
  | unclosedAtEnd (unclosed : Nat)
  /-- A strict reader rejected a source. -/
  | strictReadFailed (error : ReadError)
  /-- The line filter read a line. -/
  | lineRead (lineno : Nat) (tree : Expr)
  /-- The program is about to read its input. -/
  | inputStarted (reader : Reader)
  /-- The program has written everything. -/
  | finished (count : Nat)

namespace Event

def level : Event → Level
  | unterminatedText .. | tokensScanned .. => .trace
  | topLevelReplaced .. | strayClose .. | unclosedAtEnd .. | strictReadFailed .. | lineRead .. =>
    .debug
  | inputStarted .. | finished .. => .info

def target : Event → String
  | unterminatedText .. | tokensScanned .. => "slisp::lex"
  | topLevelReplaced .. | strayClose .. | unclosedAtEnd .. => "slisp::parse"
  | strictReadFailed .. => "slisp::read"
  | lineRead .. => "slisp::cli"
  | inputStarted .. | finished .. => "slisp"

/-- What happened, in words that do not depend on the particulars. -/
def message : Event → String
  | unterminatedText .. => "unterminated text block"
  | tokensScanned .. => "lexed tokens"
  | topLevelReplaced .. => "top-level expression replaced"
  | strayClose .. => "stray ')' ends input"
  | unclosedAtEnd .. => "input ended inside a list"
  | strictReadFailed .. => "strict read failed"
  | lineRead .. => "read"
  | inputStarted .. => "reading standard input"
  | finished .. => "done"

/-- The particulars by name, in the order in which a log shows them. -/
def fields : Event → List (String × String)
  | unterminatedText dropped offset => [("dropped", dropped), ("offset", toString offset)]
  | tokensScanned count => [("count", toString count)]
  | topLevelReplaced discarded => [("discarded", discarded.render)]
  | strayClose offset dropped => [("offset", toString offset), ("dropped", toString dropped)]
  | unclosedAtEnd unclosed => [("unclosed", toString unclosed)]
  | strictReadFailed error => [("error", error.message)]
  | lineRead lineno tree => [("lineno", toString lineno), ("tree", tree.render)]
  | inputStarted reader => [("reader", reader.dump)]
  | finished count => [("count", toString count)]

/-- The line of a log that shows the event. -/
def line (e : Event) : String :=
  e.fields.foldl (fun line field => line ++ " " ++ field.1 ++ "=" ++ field.2)
    (e.level.label ++ " " ++ e.target ++ ": " ++ e.message)

end Event

/-- The events that a log kept at `threshold` shows. -/
def shownAt (threshold : Level) (events : Array Event) : Array Event :=
  events.filter fun e => threshold.shows e.level

/-- A value and the events on the way to it. -/
structure Logged (α : Type) where
  value : α
  events : Array Event

namespace Logged

def emit (e : Event) : Logged Unit := ⟨(), #[e]⟩

instance : Monad Logged where
  pure a := ⟨a, #[]⟩
  bind x f :=
    let y := f x.value
    ⟨y.value, x.events ++ y.events⟩

theorem value_bind {α β : Type} (x : Logged α) (f : α → Logged β) :
    (x >>= f).value = (f x.value).value := rfl

theorem value_map {α β : Type} (f : α → β) (x : Logged α) : (f <$> x).value = f x.value := rfl

instance : LawfulMonad Logged := LawfulMonad.mk' Logged
  (fun x => by simp [Functor.map])
  (fun a f => by simp [bind, pure])
  (fun x f g => by simp [bind, Array.append_assoc])

end Logged

end Sexp
