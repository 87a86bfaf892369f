import Sexp.Text.Unprintable

/-!
# Quoted text

A text between double quotes, on one line and in printable characters only. A quote or a backslash
takes a backslash, the common controls have a letter of their own, and every other unprintable
character is written `\u`, its number in hexadecimal between braces.

* `quote_toList`: a quoted text is the escapes of its characters between two quotes.
-/

namespace Sexp.Text

/-- What a quoted text shows for one character. -/
def escape (c : Char) : List Char :=
  if c == '"' || c == '\\' then ['\\', c]
  else if c == '\n' then ['\\', 'n']
  else if c == '\r' then ['\\', 'r']
  else if c == '\t' then ['\\', 't']
  else if c == '\x00' then ['\\', '0']
  else if isUnprintable c then
    '\\' :: 'u' :: '\x7b' :: (Nat.toDigits 16 c.toNat ++ ['\x7d'])
  else [c]

/-- The characters between the quotes. -/
def quoteChars (cs : List Char) : List Char :=
  cs.flatMap escape

/-- A text in quotes. -/
def quote (text : String) : String :=
  String.ofList ('"' :: (quoteChars text.toList ++ ['"']))

/-! ## Quoting character by character -/

@[simp] theorem quoteChars_cons (c : Char) (cs : List Char) :
    quoteChars (c :: cs) = escape c ++ quoteChars cs := by
  simp [quoteChars]

theorem quote_toList (text : String) :
    (quote text).toList = '"' :: (quoteChars text.toList ++ ['"']) := by
  simp [quote]

end Sexp.Text
