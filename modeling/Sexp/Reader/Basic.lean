/-!
# Readers

A reader is a choice of three settings: whether text that runs up to the end of the source counts as
an atom, whether a source that is not exactly one expression is rejected or salvaged, and how deeply
a strict reader lets lists nest.
-/

namespace Sexp

/-- How a source is read. -/
structure Reader where
  /-- Text that runs up to the end of the source becomes a final atom. -/
  keepTrailing : Bool
  /-- Sources that are not one expression are rejected. -/
  isStrict : Bool
  /-- The number of lists that may be open at a time; only strict readers heed it. -/
  maxDepth : Nat
  deriving DecidableEq

namespace Reader

/-- The depth limit of a reader that is not told another. -/
def defaultMaxDepth : Nat := 1024

/-- Salvages what it can and drops trailing text. -/
def lenient : Reader := ⟨false, false, defaultMaxDepth⟩

/-- Accepts one expression and keeps trailing text. -/
def strict : Reader := ⟨true, true, defaultMaxDepth⟩

instance : Inhabited Reader := ⟨lenient⟩

def withTrailing (r : Reader) (keep : Bool) : Reader := { r with keepTrailing := keep }

def withMaxDepth (r : Reader) (depth : Nat) : Reader := { r with maxDepth := depth }

def dump (r : Reader) : String :=
  "Reader \x7b flush_trailing_atom: " ++ toString r.keepTrailing ++
    ", strict: " ++ toString r.isStrict ++ ", max_depth: " ++ toString r.maxDepth ++ " \x7d"

end Reader

end Sexp
