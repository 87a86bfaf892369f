import Sexp.Expr.Basic

/-!
# Tokens

A source text is read as a row of parentheses and text blocks, each with the offset of its first
character, counted in code points. An expression has a row of tokens of its own: its flattening.

* `tokens_list`: a list is flattened to its flattened items between parentheses.
-/

namespace Sexp

/-- A unit of a source text. -/
inductive Token where
  | lparen
  | rparen
  | text (text : String)
  deriving DecidableEq

/-- A token and the place where it starts. -/
structure Located where
  token : Token
  offset : Nat
  deriving DecidableEq

def Token.dump : Token → String
  | lparen => "Open"
  | rparen => "Close"
  | text s => "TextBlock(" ++ Text.quote s ++ ")"

namespace Expr

mutual
/-- The tokens of an expression. -/
def tokens : Expr → List Token
  | atom text => [.text text]
  | list items => .lparen :: (tokensAll items ++ [.rparen])

def tokensAll : List Expr → List Token
  | [] => []
  | e :: es => e.tokens ++ tokensAll es
end

@[simp] theorem tokens_atom (text : String) : (atom text).tokens = [.text text] := by
  simp [tokens]

theorem tokensAll_eq_flatMap (es : List Expr) : tokensAll es = es.flatMap tokens := by
  induction es with
  | nil => simp [tokensAll]
  | cons e es ih => simp [tokensAll, ih]

@[simp] theorem tokens_list (items : List Expr) :
    (list items).tokens = .lparen :: (items.flatMap tokens ++ [.rparen]) := by
  simp [tokens, tokensAll_eq_flatMap]

end Expr

end Sexp
