import Sexp.Proofs.Reading

/-!
# Reading what was rendered

The canonical text of an expression is a layout of its flattening, so that the well-formed
expressions, and no others, are read back from it. The lenient reader drops an atom that lasts to
the end of its text and needs a list; the strict reader needs an expression that is not too deep,
and otherwise points at the first parenthesis that opens a list at the limit.

* `map_token_lexemes_render`: the tokens of the canonical text.
* `Expr.read_render_eq_iff`: what the lenient reader reads back.
* `Reader.read_render_eq_ok_iff`, `Reader.read_render_of_limit_lt_depth`: what the strict reader reads
  back, and what it rejects.
* `render_read_iff`: all of them together.
-/

namespace Sexp

open Sexp.Expr (IsAtomText)

theorem map_token_lexemes_render {e : Expr} (h : e.WellFormed) :
    (lexemes true 0 e.render.toList).map Located.token = e.tokens :=
  map_token_lexemes_eq_iff.2 ⟨Expr.wellFormed_iff.1 h, Layout.render e⟩

theorem render_ne_spaces (items : List Expr) :
    ¬ ∀ c ∈ (Expr.list items).render.toList, c = ' ' := by
  intro h
  have := h '(' (by rw [Expr.toList_render, Expr.chars_canonical_list]; simp)
  simp at this

/-! ## The lenient reader -/

/-- A list ends with a parenthesis, and nothing is dropped behind it. -/
theorem Expr.read_render_of_list {items : List Expr} (h : (Expr.list items).WellFormed) :
    (Expr.read (Expr.list items).render).value = .list items := by
  have hkeep : lexemes false 0 (Expr.list items).render.toList =
      lexemes true 0 (Expr.list items).render.toList := by
    rw [Expr.toList_render, Expr.chars_canonical_list, ← List.cons_append]
    exact lexemes_false_concat rfl _ 0
  rw [Expr.read_value, hkeep]
  exact Lenient.parse_of_tokens (map_token_lexemes_render h)

/-- An atom is dropped, because it lasts to the end of its text. -/
theorem Expr.read_render_of_atom {text : String} (h : IsAtomText text) :
    (Expr.read (Expr.atom text).render).value = .list [] := by
  rw [Expr.read_value, Expr.toList_render, Expr.chars_canonical_atom,
    lexemes_false_of_isAtomText h]
  exact Lenient.parse_nil

theorem Expr.read_render_eq_iff (e : Expr) :
    (Expr.read e.render).value = e ↔ e.isList = true ∧ e.WellFormed := by
  constructor
  · intro h
    have hwf : e.WellFormed := by
      rw [← h]
      exact Expr.wellFormed_read _
    cases e with
    | list items => exact ⟨rfl, hwf⟩
    | atom text =>
      rw [Expr.read_render_of_atom (Expr.wellFormed_atom_iff.1 hwf)] at h
      cases h
  · rintro ⟨hlist, hwf⟩
    cases e with
    | atom text => cases hlist
    | list items => exact Expr.read_render_of_list hwf

/-! ## The strict reader -/

theorem Reader.read_render_eq_ok_iff (e : Expr) (limit : Nat) :
    ((Reader.strict.withMaxDepth limit).read e.render).value = .ok e ↔
      e.WellFormed ∧ e.depth ≤ limit := by
  rw [Reader.read_value_eq_ok_iff, map_token_lexemes_eq_iff, ← Expr.wellFormed_iff]
  constructor
  · rintro (⟨hnil, rfl⟩ | ⟨⟨hwf, -⟩, hdepth⟩)
    · have hlayout := layout_lexemes (Expr.list []).render.toList false (fun h => by cases h) 0
      rw [hnil] at hlayout
      exact absurd (layout_nil_iff.1 hlayout) (render_ne_spaces [])
    · exact ⟨hwf, hdepth⟩
  · rintro ⟨hwf, hdepth⟩
    exact .inr ⟨⟨hwf, Layout.render e⟩, hdepth⟩

theorem Reader.read_render_of_limit_lt_depth {e : Expr} {limit : Nat} (hwf : e.WellFormed)
    (h : limit < e.depth) :
    ∃ offset, ((Reader.strict.withMaxDepth limit).read e.render).value =
        .error (.tooDeep offset limit) ∧
      FirstOpening '(' ')' e.render.toList limit offset := by
  rw [Expr.depth_eq_height] at h
  obtain ⟨pre, offset, post, hsplit, hlimit, hfirst, hparse⟩ :=
    Strict.parse_of_limit_lt_height (map_token_lexemes_render hwf) h
  refine ⟨offset, ?_, ?_⟩
  · rw [Reader.read_value_of_strict rfl]
    exact hparse
  · rw [← hlimit]
    apply firstOpening_of_lexemes hsplit
    intro pre' k post' hpre
    have := hfirst pre' k post' hpre
    omega

/-- What the readers make of the canonical text of any expression: the lenient reader returns the
expression iff it is a well-formed list, the strict one iff it is well-formed and not too deep; the
first list at the limit is rejected in one that is well-formed and too deep. -/
theorem render_read_iff (e : Expr) (limit : Nat) :
    ((Expr.read e.render).value = e ↔ e.isList = true ∧ e.WellFormed) ∧
      (((Reader.strict.withMaxDepth limit).read e.render).value = .ok e ↔
        e.WellFormed ∧ e.depth ≤ limit) ∧
      (e.WellFormed → limit < e.depth →
        ∃ offset, ((Reader.strict.withMaxDepth limit).read e.render).value =
            .error (.tooDeep offset limit) ∧
          FirstOpening '(' ')' e.render.toList limit offset) :=
  ⟨Expr.read_render_eq_iff e, Reader.read_render_eq_ok_iff e limit,
    Reader.read_render_of_limit_lt_depth⟩

/-- A list inside a list is too deep for one list at a time. -/
theorem render_read_iff_nested :
    (Expr.list [.atom "a", .list []]).WellFormed ∧ 1 < (Expr.list [.atom "a", .list []]).depth ∧
      ∃ offset,
        ((Reader.strict.withMaxDepth 1).read (Expr.list [.atom "a", .list []]).render).value =
            .error (.tooDeep offset 1) ∧
          FirstOpening '(' ')' (Expr.list [.atom "a", .list []]).render.toList 1 offset := by
  have hwf : (Expr.list [.atom "a", .list []]).WellFormed := by
    simp [IsAtomText, Expr.isAtomChar]
  have hdepth : 1 < (Expr.list [.atom "a", .list []]).depth := by
    rw [Expr.depth_eq_height]
    decide
  exact ⟨hwf, hdepth, (render_read_iff _ 1).2.2 hwf hdepth⟩

end Sexp
