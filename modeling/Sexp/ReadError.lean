/-!
# Why a text is not one expression

The four causes for which the strict reader rejects a text. Each names the offset of the character
that it was found at.
-/

namespace Sexp

/-- Why a strict reader rejects a text, and where. -/
inductive ReadError where
  /-- A closing parenthesis without an opening one. -/
  | unexpectedClose (offset : Nat)
  /-- The text ends inside the list that was opened here. -/
  | unclosedList (offset : Nat)
  /-- A second expression begins after a complete one. -/
  | multipleTopLevel (offset : Nat)
  /-- A list is opened inside as many others as the reader allows. -/
  | tooDeep (offset limit : Nat)
  deriving DecidableEq

namespace ReadError

def offset : ReadError → Nat
  | unexpectedClose offset | unclosedList offset | multipleTopLevel offset | tooDeep offset _ =>
    offset

def reason : ReadError → String
  | unexpectedClose _ => "unexpected ')'"
  | unclosedList _ => "abrupt end of list"
  | multipleTopLevel _ => "expecting a single top-level expression"
  | tooDeep _ limit => "nesting deeper than " ++ toString limit

/-- The message for the user: the offset and the reason. -/
def message (e : ReadError) : String :=
  toString e.offset ++ ": sexpr error: " ++ e.reason

/-- The error as it is shown in dumps. -/
def dump : ReadError → String
  | unexpectedClose offset => "UnexpectedClose \x7b offset: " ++ toString offset ++ " \x7d"
  | unclosedList offset => "UnclosedList \x7b offset: " ++ toString offset ++ " \x7d"
  | multipleTopLevel offset => "MultipleTopLevel \x7b offset: " ++ toString offset ++ " \x7d"
  | tooDeep offset limit =>
    "TooDeep \x7b offset: " ++ toString offset ++ ", limit: " ++ toString limit ++ " \x7d"

end ReadError

end Sexp
