import Sexp.Token.Queue
import Sexp.Log

/-!
# From text to tokens

The scanner walks over a source once. Parentheses are tokens; the space ends a text block and is
nothing by itself; every other character belongs to a text block. A block that runs up to the end of
the source is kept or dropped, as the caller chooses.

* `Scanner.offset_foldl`: the scanner's offset counts the characters it has taken in.
-/

namespace Sexp

/-- A text block that may still grow. -/
structure Block where
  text : String
  start : Nat

/-- The scanner between two characters. -/
structure Scanner where
  /-- The number of characters taken in. -/
  offset : Nat := 0
  block? : Option Block := none
  /-- The tokens that are complete. -/
  found : Queue := {}

namespace Scanner

/-- Ends the text block, if there is one. -/
def endBlock : Scanner → Scanner
  | ⟨offset, some block, found⟩ => ⟨offset, none, found.push ⟨.text block.text, block.start⟩⟩
  | s => s

/-- Adds a token that starts here. -/
def add (s : Scanner) (token : Token) : Scanner :=
  { s with found := s.found.push ⟨token, s.offset⟩ }

/-- Lets the text block grow, or begins one. -/
def extend : Scanner → Char → Scanner
  | ⟨offset, some ⟨text, start⟩, found⟩, c => ⟨offset, some ⟨text.push c, start⟩, found⟩
  | ⟨offset, none, found⟩, c => ⟨offset, some ⟨String.singleton c, offset⟩, found⟩

/-- What a character does, before it is counted. -/
def accept (s : Scanner) (c : Char) : Scanner :=
  if c == '(' then s.endBlock.add .lparen
  else if c == ')' then s.endBlock.add .rparen
  else if c == ' ' then s.endBlock
  else s.extend c

def step (s : Scanner) (c : Char) : Scanner :=
  let s := s.accept c
  { s with offset := s.offset + 1 }

/-- The tokens of a source that ends here. -/
def finish (keepTrailing : Bool) (s : Scanner) : Logged Queue := do
  if keepTrailing then
    let found := s.endBlock.found
    Logged.emit (.tokensScanned found.size)
    pure found
  else
    if let some block := s.block? then
      Logged.emit (.unterminatedText block.text block.start)
    Logged.emit (.tokensScanned s.found.size)
    pure s.found

end Scanner

/-- The tokens of a source. -/
def scan (keepTrailing : Bool) (src : String) : Logged Queue :=
  (src.toList.foldl Scanner.step {}).finish keepTrailing

/-! ## Offsets -/

namespace Scanner

@[simp] theorem offset_endBlock (s : Scanner) : s.endBlock.offset = s.offset := by
  unfold endBlock; split <;> rfl

@[simp] theorem offset_extend (s : Scanner) (c : Char) : (s.extend c).offset = s.offset := by
  unfold extend; split <;> rfl

@[simp] theorem offset_accept (s : Scanner) (c : Char) : (s.accept c).offset = s.offset := by
  unfold accept
  repeat' split
  all_goals simp [add]

theorem offset_foldl (s : Scanner) (cs : List Char) :
    (cs.foldl step s).offset = s.offset + cs.length := by
  induction cs generalizing s with
  | nil => rfl
  | cons c cs ih => simp [ih, step]; omega

end Scanner

end Sexp
