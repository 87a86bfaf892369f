/-!
# White space and blank lines

The characters with the Unicode property `White_Space`, and the texts made of nothing else. A blank
text holds no expression and is skipped; the tokens of a text, in contrast, are separated by the
space `' '` alone.
-/

namespace Sexp.Text

/-- Membership in the Unicode property `White_Space`. -/
def isWhite (c : Char) : Bool :=
  let n := c.toNat
  (0x9 ≤ n && n ≤ 0xd) || n == 0x20 || n == 0x85 || n == 0xa0 || n == 0x1680 ||
    (0x2000 ≤ n && n ≤ 0x200a) || n == 0x2028 || n == 0x2029 || n == 0x202f || n == 0x205f ||
    n == 0x3000

/-- A text is blank when it is white space throughout, in particular when it is empty. -/
def isBlank (text : String) : Bool :=
  text.toList.all isWhite

/-! ## Blank texts -/

@[simp] theorem isBlank_empty : isBlank "" = true := by simp [isBlank]

theorem isBlank_iff {s : String} : isBlank s = true ↔ ∀ c ∈ s.toList, isWhite c = true := by
  simp [isBlank]

end Sexp.Text
