import Sexp.Log

/-!
# Settings of the program

Two variables of the environment set the program: one names how much is logged, the other switches
to the strict reader. Values that are not known count as if the variable were not set.
-/

namespace Sexp

/-- How much is logged. -/
inductive Verbosity where
  | minimal
  | verbose
  | debug
  deriving DecidableEq

namespace Verbosity

/-- The verbosity of this name; other names mean `minimal`. -/
def ofName (name : String) : Verbosity :=
  if name == "verbose" then verbose
  else if name == "debug" then debug
  else minimal

def level : Verbosity → Level
  | minimal => .warn
  | verbose => .info
  | debug => .debug

def rank : Verbosity → Nat
  | minimal => 0
  | verbose => 1
  | debug => 2

/-- The more is logged, the greater. -/
instance : Ord Verbosity := ⟨fun a b => compare a.rank b.rank⟩

def dump : Verbosity → String
  | minimal => "Minimal"
  | verbose => "Verbose"
  | debug => "Debug"

end Verbosity

/-- What the environment decides. -/
structure Settings where
  verbosity : Verbosity
  strict : Bool
  deriving DecidableEq

namespace Settings

/-- The settings for two variables, which may be unset. Only `1` and `true` make the reader
strict. -/
def ofVars (verbose strict : Option String) : Settings where
  verbosity := (verbose.map Verbosity.ofName).getD .minimal
  strict := strict == some "1" || strict == some "true"

def reader (s : Settings) : Reader :=
  if s.strict then .strict else .lenient

def dump (s : Settings) : String :=
  "Config \x7b verbosity: " ++ s.verbosity.dump ++ ", strict: " ++ toString s.strict ++ " \x7d"

end Settings

end Sexp
