import Sexp.Proofs.Reading

/-!
# The grammar of the strict reader

The strict reader accepts a text as an expression iff the text is a layout of the expression's
flattening and the expression is well-formed and not too deep; a text of spaces counts as the empty
list.

* `lexemes_eq_nil_iff`: the texts without tokens.
* `strict_read_eq_ok_iff`: the texts that are accepted.
-/

namespace Sexp

/-- The texts without tokens are those of spaces. -/
theorem lexemes_eq_nil_iff {cs : List Char} {offset : Nat} :
    lexemes true offset cs = [] ↔ ∀ c ∈ cs, c = ' ' := by
  rw [← List.map_eq_nil_iff (f := Located.token), map_token_lexemes_eq_iff, ← layout_nil_iff]
  simp

/-- The strict reader accepts exactly the layouts of well-formed expressions within its limit, and
texts of spaces as the empty list. -/
theorem strict_read_eq_ok_iff (limit : Nat) (src : String) (e : Expr) :
    ((Reader.strict.withMaxDepth limit).read src).value = .ok e ↔
      ((∀ c ∈ src.toList, c = ' ') ∧ e = .list []) ∨
        (e.depth ≤ limit ∧ e.WellFormed ∧ Layout false e.tokens src.toList) := by
  rw [Reader.read_value_eq_ok_iff, lexemes_eq_nil_iff, map_token_lexemes_eq_iff,
    ← Expr.wellFormed_iff, and_comm (b := e.depth ≤ limit)]

-- a tab is no space, but part of the atom
example : ((Reader.strict.withMaxDepth 1).read " (a\tb c)").value =
    .ok (.list [.atom "a\tb", .atom "c"]) := by cbv

end Sexp
