/-!
# The lines of a text

A line ends at a line feed, which with one carriage return right before it does not belong to the
line. What follows the last line feed is a line too unless it is empty; a carriage return at its end
stays.

* `lines_eq_linesFrom`: the left-to-right splitter agrees with the recursive reading of a text.
-/

namespace Sexp.Text

/-- Removes one carriage return from the end of a line whose characters are listed backwards. -/
def dropReturn : List Char → List Char
  | '\r' :: rest => rest
  | cs => cs

/-- A text on its way to being split: the finished lines, and the characters since the last line
feed, latest first. -/
structure LineSplitter where
  finished : Array String := #[]
  recent : List Char := []

namespace LineSplitter

/-- Takes in one more character. -/
def step (s : LineSplitter) (c : Char) : LineSplitter :=
  if c == '\n' then
    { finished := s.finished.push (String.ofList (dropReturn s.recent).reverse), recent := [] }
  else
    { s with recent := c :: s.recent }

/-- The lines of a text that ends here. -/
def finish (s : LineSplitter) : List String :=
  if s.recent.isEmpty then s.finished.toList
  else (s.finished.push (String.ofList s.recent.reverse)).toList

end LineSplitter

/-- The lines of a text. -/
def lines (text : String) : List String :=
  (text.toList.foldl LineSplitter.step {}).finish

/-! ## The recursive reading -/

/-- The lines of `cs`, where `recent` lists backwards what the first line already holds. -/
def linesFrom (recent : List Char) : List Char → List String
  | [] => if recent.isEmpty then [] else [String.ofList recent.reverse]
  | c :: cs =>
    if c == '\n' then String.ofList (dropReturn recent).reverse :: linesFrom [] cs
    else linesFrom (c :: recent) cs

theorem finish_foldl_step (s : LineSplitter) (cs : List Char) :
    (cs.foldl LineSplitter.step s).finish = s.finished.toList ++ linesFrom s.recent cs := by
  induction cs generalizing s with
  | nil =>
    by_cases h : s.recent.isEmpty = true <;> simp [LineSplitter.finish, linesFrom, h]
  | cons c cs ih =>
    rw [List.foldl_cons, ih]
    by_cases h : (c == '\n') = true <;> simp [LineSplitter.step, linesFrom, h]

theorem lines_eq_linesFrom (text : String) : lines text = linesFrom [] text.toList := by
  simp [lines, finish_foldl_step]

end Sexp.Text
