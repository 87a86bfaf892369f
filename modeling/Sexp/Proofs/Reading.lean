import Sexp.Reader.Read
import Sexp.Proofs.ScanRun
import Sexp.Proofs.StrictRun
import Sexp.Proofs.LenientRun
import Sexp.Proofs.Layout

/-!
# Readers and the tokens of a text

What a reader returns is what its parser returns for the tokens of the text, so that the scanner can
be left aside from here on.

* `Reader.read_value`: every reader is a parser behind the scanner.
* `Reader.read_value_of_strict`, `Expr.read_value`: the two kinds of readers.
* `Reader.wellFormed_of_read`: whatever the reader and the text are, only atom texts become atoms.
-/

namespace Sexp

open Sexp.Expr (IsAtomText)

/-- What a reader makes of the tokens of a text. -/
def Reader.parse (r : Reader) (ts : List Located) : Except ReadError Expr :=
  if r.isStrict then Strict.parse r.maxDepth ts else .ok (Lenient.parse ts).value

theorem Reader.read_value_of_strict {r : Reader} (h : r.isStrict = true) (src : String) :
    (r.read src).value = Strict.parse r.maxDepth (lexemes r.keepTrailing 0 src.toList) := by
  rw [Reader.read, Logged.value_bind, if_pos h, toList_scan]
  cases Strict.parse r.maxDepth (lexemes r.keepTrailing 0 src.toList) <;> rfl

/-- A reader parses the tokens of the text. -/
theorem Reader.read_value (r : Reader) (src : String) :
    (r.read src).value = r.parse (lexemes r.keepTrailing 0 src.toList) := by
  cases hstrict : r.isStrict with
  | true => rw [read_value_of_strict hstrict, parse, if_pos hstrict]
  | false => rw [read_of_not_strict hstrict, toList_scan, parse, hstrict, if_neg Bool.false_ne_true]

/-- The strict reader accepts the texts whose tokens are a flattening that is not too high, and as
the empty list the texts without tokens. -/
theorem Reader.read_value_eq_ok_iff {limit : Nat} {src : String} {e : Expr} :
    ((Reader.strict.withMaxDepth limit).read src).value = .ok e ↔
      (lexemes true 0 src.toList = [] ∧ e = .list []) ∨
        ((lexemes true 0 src.toList).map Located.token = e.tokens ∧ e.depth ≤ limit) := by
  rw [Reader.read_value_of_strict rfl, Expr.depth_eq_height]
  exact Strict.parse_eq_ok_iff

/-- The lenient reader parses the tokens of the text, without a block that lasts to the end. -/
theorem Expr.read_value (src : String) :
    (Expr.read src).value = (Lenient.parse (lexemes false 0 src.toList)).value := by
  rw [Expr.read, Logged.value_bind, toList_scan]

/-! ## Only atom texts become atoms -/

theorem mem_atoms_salvaged {es : List Expr} {text : String} (h : text ∈ (salvaged es).atoms) :
    ∃ e ∈ es, text ∈ e.atoms := by
  unfold salvaged at h
  split at h
  · rename_i items rest hdrop
    have hsub : ∀ e ∈ Expr.list items :: rest, e ∈ es := by
      rw [← hdrop]
      exact fun e he => (List.dropWhile_sublist _).subset he
    rw [Expr.atoms_list, List.flatMap_append, List.mem_append] at h
    rcases h with h | h
    · exact ⟨.list items, hsub _ (by simp), by rwa [Expr.atoms_list]⟩
    · obtain ⟨e, he, htext⟩ := List.mem_flatMap.1 h
      exact ⟨e, hsub e (by simp [he]), htext⟩
  · cases hlast : es.getLast? with
    | none =>
      rw [hlast] at h
      simp at h
    | some e =>
      rw [hlast] at h
      exact ⟨e, List.mem_of_getLast? hlast, h⟩

/-- The atoms of what the lenient parser returns are text blocks among the tokens. -/
theorem Lenient.text_mem_of_mem_atoms {ts : List Located} {text : String}
    (h : text ∈ (Lenient.parse ts).value.atoms) : .text text ∈ ts.map Located.token := by
  obtain ⟨es, hes, hvalue⟩ := Lenient.exists_salvaged ts
  rw [hvalue] at h
  obtain ⟨e, he, htext⟩ := mem_atoms_salvaged h
  have hmem : .text text ∈ completed (beforeStray (ts.map Located.token)) := by
    rw [← hes]
    exact List.mem_flatMap.2 ⟨e, he, Expr.text_mem_tokens_iff.2 htext⟩
  rw [completed, List.mem_append] at hmem
  rcases hmem with hmem | hmem
  · rcases beforeStray_cases (ts.map Located.token) with hall | ⟨rest, hsplit, -⟩
    · rwa [hall] at hmem
    · rw [hsplit]
      exact List.mem_append_left _ hmem
  · have := List.eq_of_mem_replicate hmem
    cases this

theorem Strict.text_mem_of_mem_atoms {limit : Nat} {ts : List Located} {e : Expr} {text : String}
    (h : parse limit ts = .ok e) (htext : text ∈ e.atoms) : .text text ∈ ts.map Located.token := by
  rcases parse_eq_ok_iff.1 h with ⟨-, rfl⟩ | ⟨htokens, -⟩
  · simp at htext
  · rw [htokens]
    exact Expr.text_mem_tokens_iff.2 htext

namespace Reader

variable {r : Reader} {src : String} {e : Expr}

/-- The atoms of what is read are text blocks of the text. -/
theorem text_mem_of_read (h : (r.read src).value = .ok e) {text : String} (htext : text ∈ e.atoms) :
    .text text ∈ (lexemes r.keepTrailing 0 src.toList).map Located.token := by
  cases hstrict : r.isStrict with
  | true =>
    rw [read_value_of_strict hstrict] at h
    exact Strict.text_mem_of_mem_atoms h htext
  | false =>
    rw [read_of_not_strict hstrict, toList_scan] at h
    cases h
    exact Lenient.text_mem_of_mem_atoms htext

/-- Whatever the reader and the text are, only atom texts become atoms. -/
theorem wellFormed_of_read (h : (r.read src).value = .ok e) : e.WellFormed := by
  intro text htext
  obtain ⟨⟨token, k⟩, htok, rfl⟩ := List.mem_map.1 (text_mem_of_read h htext)
  exact isAtomText_of_mem_lexemes htok

/-- The atoms of what is read are made of characters of the text. -/
theorem mem_src_of_mem_atoms (h : (r.read src).value = .ok e) {text : String}
    (htext : text ∈ e.atoms) {c : Char} (hc : c ∈ text.toList) : c ∈ src.toList := by
  obtain ⟨⟨token, k⟩, htok, rfl⟩ := List.mem_map.1 (text_mem_of_read h htext)
  obtain ⟨before, after, hsplit⟩ := List.append_of_mem htok
  obtain ⟨ds, es, hsrc, -⟩ := lexemes_eq_append_cons hsplit
  rw [hsrc]
  simp [Token.chars, hc]

end Reader

theorem Expr.wellFormed_read (src : String) : (Expr.read src).value.WellFormed :=
  Reader.wellFormed_of_read (Expr.read_eq src)

end Sexp
