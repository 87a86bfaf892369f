import Sexp.Proofs.LenientRun

/-!
# What is salvaged

Any row of tokens, up to its first stray closing parenthesis and completed, flattens one row of
expressions and no other. The lenient parser returns what is salvaged from it.

* `existsUnique_flatMap_tokens`: the row of expressions.
* `lenient_parse_salvages`: what the parser returns.
-/

namespace Sexp

/-- The tokens that count, completed, flatten one row of expressions. -/
theorem existsUnique_flatMap_tokens (ts : List Token) :
    ∃! es : List Expr, es.flatMap Expr.tokens = completed (beforeStray ts) := by
  obtain ⟨s, hs⟩ := Spine.exists_run_beforeStray ts
  obtain ⟨es, hes⟩ := Spine.exists_flatMap_tokens_eq_completed s
  rw [hs] at hes
  exact ⟨es, hes, fun fs hfs => Spine.flatMap_tokens_injective (hfs.trans hes.symm)⟩

/-- The lenient parser returns what is salvaged from the one row of expressions that the tokens in
front of a stray closing parenthesis flatten, when a closing parenthesis is added for every list
that they leave open. -/
theorem lenient_parse_salvages (ts : List Located) :
    (∃! es : List Expr,
        es.flatMap Expr.tokens = completed (beforeStray (ts.map Located.token))) ∧
      ∀ es : List Expr, es.flatMap Expr.tokens = completed (beforeStray (ts.map Located.token)) →
        (Lenient.parse ts).value = salvaged es :=
  ⟨existsUnique_flatMap_tokens _, fun _ => Lenient.parse_value⟩

end Sexp
