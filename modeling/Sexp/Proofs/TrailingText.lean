import Sexp.Proofs.Agreement
import Sexp.Proofs.Reading
import Sexp.Proofs.TokenPositions
import Mathlib.Data.List.DropRight

/-!
# Text at the end of a text

A reader that keeps trailing text reads a text as if a space followed it, and a reader that drops it
reads a text as if it did not end in a text block. A text that is exactly one expression and ends in
a text block is nothing but one atom.

* `rdropWhile_trailing`: the front and the trailing block of a text.
* `lexemes_true_eq`, `lexemes_false_eq`: the tokens of both kinds of readers in terms of the other.
* `eq_atom_of_tokens_append_text`: a flattening that ends in a text block is an atom's.
* `read_trailing`: what the setting means to readers, and to reading one expression.
-/

namespace Sexp

open Sexp.Expr (isAtomChar)

/-- The text without its longest ending of characters that can stand in a text block. -/
def Text.withoutTrailing (src : String) : String :=
  String.ofList (src.toList.rdropWhile isAtomChar)

/-! ## Tokens -/

theorem rdropWhile_trailing {pre word : List Char} (hpre : EndsBlock pre.reverse)
    (hword : ∀ c ∈ word, isAtomChar c = true) : (pre ++ word).rdropWhile isAtomChar = pre := by
  have hrev : ∀ c ∈ word.reverse, isAtomChar c = true := fun c hc =>
    hword c (List.mem_reverse.1 hc)
  rw [List.rdropWhile, List.reverse_append, (takeWhile_append_of_endsBlock hrev hpre).2,
    List.reverse_reverse]

/-- A kept block is one in front of a space. -/
theorem lexemes_true_eq (offset : Nat) (cs : List Char) :
    lexemes true offset cs = lexemes false offset (cs ++ [' ']) := by
  rw [lexemes_append (by decide), lexemes_space, lexemes_nil, List.append_nil]

/-- Dropping the trailing block leaves the tokens in front of it. -/
theorem lexemes_false_trailing {pre word : List Char} (hpre : EndsBlock pre.reverse)
    (hword : ∀ c ∈ word, isAtomChar c = true) (offset : Nat) :
    lexemes false offset (pre ++ word) = lexemes true offset pre := by
  have hdropped : lexemes false (offset + pre.length) word = [] := by
    by_cases hne : word = []
    · rw [hne, lexemes_nil]
    · rw [lexemes_of_word hne hword, if_neg Bool.false_ne_true]
  rw [lexemes_append_of_endsBlock hpre, hdropped, List.append_nil]

theorem lexemes_false_eq (offset : Nat) (cs : List Char) :
    lexemes false offset cs = lexemes true offset (cs.rdropWhile isAtomChar) := by
  obtain ⟨pre, word, rfl, hpre, hword⟩ := exists_trailing cs
  rw [rdropWhile_trailing hpre hword, lexemes_false_trailing hpre hword]

/-! ## One expression that ends in a text block -/

/-- A list ends in its closing parenthesis, so only an atom ends in a text block. -/
theorem eq_atom_of_tokens_append_text {e : Expr} {ts : List Token} {word : String}
    (h : e.tokens = ts ++ [.text word]) : ts = [] ∧ e = .atom word := by
  cases e with
  | atom text =>
    have hcut : [] ++ [Token.text text] = ts ++ [.text word] := by
      rwa [Expr.tokens_atom] at h
    obtain ⟨hts, hword⟩ := List.append_inj' hcut rfl
    cases hword
    exact ⟨hts.symm, rfl⟩
  | list items =>
    have hlast := congrArg List.getLast? h
    rw [Expr.tokens_list, ← List.cons_append, List.getLast?_concat, List.getLast?_concat] at hlast
    cases hlast

variable {src : String} {e : Expr} {pre word : List Char}

/-- Behind one expression, there is nothing for the lenient reader to drop. -/
theorem read_eq_of_strict_nil (h : (Expr.readStrict src).value = .ok e)
    (hpre : EndsBlock src.toList.reverse) : (Expr.read src).value = e := by
  have hsame : lexemes false 0 src.toList = lexemes true 0 src.toList := by
    have htrailing := lexemes_false_trailing hpre (List.forall_mem_nil _) 0
    rwa [List.append_nil] at htrailing
  rw [Expr.readStrict, Reader.read_value_of_strict rfl] at h
  rw [Expr.read_value, hsame]
  exact lenient_parse_of_strict h

/-- One expression that ends in a text block is an atom, and dropping it leaves nothing. -/
theorem read_eq_nil_of_strict_word (h : (Expr.readStrict src).value = .ok e)
    (hsrc : src.toList = pre ++ word) (hpre : EndsBlock pre.reverse) (hne : word ≠ [])
    (hword : ∀ c ∈ word, isAtomChar c = true) :
    e = .atom (String.ofList word) ∧ (Expr.read src).value = .list [] := by
  have hlex : lexemes true 0 src.toList =
      lexemes true 0 pre ++ [⟨.text (String.ofList word), pre.length⟩] := by
    rw [hsrc, lexemes_append_of_endsBlock hpre, lexemes_of_word hne hword, if_pos rfl, Nat.zero_add]
  rcases Reader.read_value_eq_ok_iff.1 h with ⟨hnil, -⟩ | ⟨htokens, -⟩
  · rw [hlex] at hnil
    exact absurd hnil (by simp)
  · rw [hlex, List.map_append, List.map_singleton] at htokens
    obtain ⟨hempty, he⟩ := eq_atom_of_tokens_append_text htokens.symm
    refine ⟨he, ?_⟩
    rw [Expr.read_value, hsrc, lexemes_false_trailing hpre hword, List.map_eq_nil_iff.1 hempty]
    exact Lenient.parse_nil

/-! ## What the setting means -/

/-- Keeping trailing text means to read as if a space followed, dropping it means to read as if it
were not there, for trees and for errors. Where a text is exactly one expression, the lenient reader
comes to the same one, unless the text ends in a text block: then it is an atom and dropped. -/
theorem read_trailing (r : Reader) (src : String) :
    ((r.withTrailing true).read src).value = ((r.withTrailing false).read (src ++ " ")).value ∧
      ((r.withTrailing false).read src).value =
        ((r.withTrailing true).read (Text.withoutTrailing src)).value ∧
      ∀ t, (Expr.readStrict src).value = .ok t →
        ((∀ c ∈ src.toList.getLast?, isAtomChar c = false) → (Expr.read src).value = t) ∧
        (∀ c ∈ src.toList.getLast?, isAtomChar c = true →
          t.isAtom = true ∧ (Expr.read src).value = .list []) := by
  refine ⟨?_, ?_, ?_⟩
  · rw [Reader.read_value, Reader.read_value, String.toList_append]
    exact congrArg r.parse (lexemes_true_eq 0 src.toList)
  · rw [Reader.read_value, Reader.read_value, Text.withoutTrailing, String.toList_ofList]
    exact congrArg r.parse (lexemes_false_eq 0 src.toList)
  · intro t ht
    constructor
    · intro hlast
      apply read_eq_of_strict_nil ht
      intro c hc
      rw [List.head?_reverse] at hc
      exact hlast c hc
    · intro c hc hchar
      obtain ⟨pre, word, hsrc, hpre, hword⟩ := exists_trailing src.toList
      have hne : word ≠ [] := by
        intro hnil
        -- without a trailing block, the last character would be a delimiter
        rw [hsrc, hnil, List.append_nil, ← List.head?_reverse] at hc
        rw [hpre c hc] at hchar
        cases hchar
      obtain ⟨he, hread⟩ := read_eq_nil_of_strict_word ht hsrc hpre hne hword
      exact ⟨by rw [he]; rfl, hread⟩

/-- One atom that ends a text, behind spaces. -/
theorem read_trailing_atom :
    (Expr.readStrict "  né").value = .ok (.atom "né") ∧ (Expr.read "  né").value = .list [] := by
  have hstrict : (Expr.readStrict "  né").value = .ok (.atom "né") := by cbv
  obtain ⟨-, -, hone⟩ := read_trailing Reader.strict "  né"
  obtain ⟨-, hblock⟩ := hone (.atom "né") hstrict
  exact ⟨hstrict, (hblock 'é' (by decide) (by decide)).2⟩

end Sexp
