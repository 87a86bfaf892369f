import Sexp.Proofs.FilterRun
import Sexp.Proofs.Grammar
import Sexp.Proofs.RoundTrip
import Mathlib.Data.List.Basic

/-!
# Filtering what was filtered

The output of the line filter is canonical text, one expression a row, and a reader that keeps
trailing text reads every row back. Only a bare atom can fail to come back: its row loses a carriage
return to the line ending, or counts as blank. A reader that drops trailing text drops every bare
atom.

* `Reader.admits_of_read`, `Reader.read_render_of_admits`: what is read from a line is read again
  from its canonical text.
* `Reader.newline_notMem_render`: the canonical text stays on one line.
* `LineFilter.output_output_eq_iff`: the output is reproduced iff every row is.
* `LineFilter.treeOf?_row_list`, `LineFilter.map_treeOf?_atom_iff`, `LineFilter.map_treeOf?_atom_ne`:
  the rows that are reproduced.
* `LineFilter.canonical_output_fixed_iff`: when a second run changes nothing.
-/

namespace Sexp

open Sexp.Expr (isAtomChar IsAtomText)

/-! ## What can be read again -/

/-- A canonical text is made of the characters of the atoms, of spaces and of parentheses. -/
theorem Expr.mem_chars_canonical {e : Expr} {c : Char} (h : c ∈ Style.canonical.chars e) :
    isAtomChar c = false ∨ ∃ text ∈ e.atoms, c ∈ text.toList := by
  induction e using recOnItems with
  | atom text =>
    rw [chars_canonical_atom] at h
    exact .inr ⟨text, by simp, h⟩
  | list items ih =>
    rw [chars_canonical_list] at h
    simp only [List.mem_cons, List.mem_append, List.mem_flatMap, List.not_mem_nil, or_false] at h
    rcases h with rfl | ⟨e, he, h | rfl⟩ | rfl
    · exact .inl rfl
    · rcases ih e he h with hc | ⟨text, htext, hc⟩
      · exact .inl hc
      · exact .inr ⟨text, by rw [atoms_list]; exact List.mem_flatMap.2 ⟨e, he, htext⟩, hc⟩
    · exact .inl rfl
    · exact .inl rfl

namespace Reader

variable {r : Reader} {src : String} {e : Expr}

/-- What is read from one line is written on one line. -/
theorem newline_notMem_render (h : (r.read src).value = .ok e) (hsrc : '\n' ∉ src.toList) :
    '\n' ∉ e.render.toList := by
  rw [Expr.toList_render]
  intro hmem
  rcases Expr.mem_chars_canonical hmem with hc | ⟨text, htext, hc⟩
  · cases hc
  · exact hsrc (mem_src_of_mem_atoms h htext hc)

/-- What a reader can return for a line that is not blank. -/
structure Admits (r : Reader) (e : Expr) : Prop where
  wellFormed : e.WellFormed
  depth : r.isStrict = true → e.depth ≤ r.maxDepth

theorem admits_of_read (hmode : r.keepTrailing = true ∨ r.isStrict = false)
    (hblank : Text.isBlank src = false) (h : (r.read src).value = .ok e) : r.Admits e := by
  refine ⟨wellFormed_of_read h, ?_⟩
  intro hstrict
  have hkeep : r.keepTrailing = true := by simpa [hstrict] using hmode
  rw [read_value_of_strict hstrict, hkeep] at h
  rcases Strict.parse_eq_ok_iff.1 h with ⟨hnil, -⟩ | ⟨-, hheight⟩
  · -- a text without tokens is blank
    have hspaces := lexemes_eq_nil_iff.1 hnil
    have : Text.isBlank src = true := Text.isBlank_iff.2 fun c hc => by rw [hspaces c hc]; rfl
    rw [hblank] at this
    cases this
  · rwa [Expr.depth_eq_height]

theorem admits_atom {text : String} (h : IsAtomText text) : r.Admits (.atom text) := by
  refine ⟨Expr.wellFormed_atom_iff.2 h, fun _ => ?_⟩
  rw [Expr.depth_eq_height]
  exact Nat.zero_le _

theorem read_render_of_admits (hkeep : r.keepTrailing = true) (h : r.Admits e) :
    (r.read e.render).value = .ok e := by
  have htokens := map_token_lexemes_render h.wellFormed
  cases hstrict : r.isStrict with
  | true =>
    have hdepth := h.depth hstrict
    rw [Expr.depth_eq_height] at hdepth
    rw [read_value_of_strict hstrict, hkeep]
    exact Strict.parse_eq_ok_iff.2 (.inr ⟨htokens, hdepth⟩)
  | false =>
    rw [read_of_not_strict hstrict, toList_scan, hkeep, Lenient.parse_of_tokens htokens]

/-- A reader that drops trailing text reads as the lenient one. -/
theorem read_of_drop (hstrict : r.isStrict = false) (hkeep : r.keepTrailing = false)
    (src : String) : (r.read src).value = .ok (Expr.read src).value := by
  rw [read_of_not_strict hstrict, toList_scan, hkeep, Expr.read_value]

end Reader

/-! ## Rows -/

namespace Expr

theorem withoutReturn_render_list (items : List Expr) :
    Text.withoutReturn (list items).render = (list items).render := by
  rw [Text.withoutReturn_eq_self_iff, toList_render, chars_canonical_list, ← List.cons_append,
    List.getLast?_concat]
  decide

theorem isBlank_render_list (items : List Expr) : Text.isBlank (list items).render = false := by
  rw [Bool.eq_false_iff]
  intro hblank
  have hopen : Text.isWhite '(' = true := by
    apply Text.isBlank_iff.1 hblank
    rw [toList_render, chars_canonical_list]
    exact List.mem_cons_self
  revert hopen
  decide

/-- What the line ending leaves of an atom is an atom again, unless it is blank. -/
theorem isAtomText_withoutReturn {text : String} (h : IsAtomText text)
    (hblank : Text.isBlank (Text.withoutReturn text) = false) :
    IsAtomText (Text.withoutReturn text) := by
  refine ⟨?_, fun c hc => h.2 c (Text.withoutReturn_subset text hc)⟩
  intro hempty
  rw [hempty, Text.isBlank_empty] at hblank
  cases hblank

end Expr

namespace LineFilter

open Sexp.Expr (isAtomText_withoutReturn)

variable {r : Reader}

/-- The row of a list is read as the list. -/
theorem treeOf?_row_list (hmode : r.keepTrailing = true ∨ r.isStrict = false) {items : List Expr}
    (h : r.Admits (.list items)) :
    treeOf? r (Text.withoutReturn (Expr.list items).render) = some (.list items) := by
  have hread : (r.read (Expr.list items).render).value = .ok (.list items) := by
    cases hkeep : r.keepTrailing with
    | true => exact Reader.read_render_of_admits hkeep h
    | false =>
      have hstrict : r.isStrict = false := by simpa [hkeep] using hmode
      rw [Reader.read_of_drop hstrict hkeep, Expr.read_render_of_list h.wellFormed]
  rw [Expr.withoutReturn_render_list, treeOf?, Expr.isBlank_render_list, hread]
  rfl

/-- The row of an atom is read as what the line ending leaves of the atom. -/
theorem read_row_atom (hkeep : r.keepTrailing = true) {text : String} (h : IsAtomText text)
    (hblank : Text.isBlank (Text.withoutReturn text) = false) :
    (r.read (Text.withoutReturn text)).value = .ok (.atom (Text.withoutReturn text)) := by
  have hatom := isAtomText_withoutReturn h hblank
  have := Reader.read_render_of_admits hkeep (Reader.admits_atom hatom)
  rwa [Expr.render_atom] at this

/-- The rows of atoms that are reproduced. -/
theorem map_treeOf?_atom_iff (hkeep : r.keepTrailing = true) {text : String}
    (h : IsAtomText text) :
    (treeOf? r (Text.withoutReturn text)).map Expr.render = some text ↔
      text.toList.getLast? ≠ some '\r' ∧ Text.isBlank text = false := by
  rw [← Text.withoutReturn_eq_self_iff, treeOf?]
  cases hblank : Text.isBlank (Text.withoutReturn text) with
  | true =>
    refine ⟨fun heq => (by cases heq), fun hrow => ?_⟩
    rw [hrow.1, hrow.2] at hblank
    cases hblank
  | false =>
    rw [if_neg (by simp), read_row_atom hkeep h hblank]
    simp only [Except.toOption, Option.map_some, Expr.render_atom, Option.some.injEq]
    refine ⟨fun hreturn => ⟨hreturn, ?_⟩, And.left⟩
    rwa [hreturn] at hblank

/-- A reader that drops trailing text reproduces no atom. -/
theorem map_treeOf?_atom_ne (hstrict : r.isStrict = false) (hkeep : r.keepTrailing = false)
    {text : String} (h : IsAtomText text) :
    (treeOf? r (Text.withoutReturn text)).map Expr.render ≠ some text := by
  rw [treeOf?]
  cases hblank : Text.isBlank (Text.withoutReturn text) with
  | true => simp
  | false =>
    have hread := Expr.read_render_of_atom (isAtomText_withoutReturn h hblank)
    rw [Expr.render_atom] at hread
    rw [if_neg (by simp), Reader.read_of_drop hstrict hkeep, hread]
    intro heq
    have hopen := h.2 '(' ?_
    · cases hopen
    · rw [← Option.some.inj heq, Expr.toList_render, Expr.chars_canonical_list]
      exact List.mem_cons_self

/-- No row of the output is rejected. -/
theorem exists_read_row (hmode : r.keepTrailing = true ∨ r.isStrict = false) {e : Expr}
    (h : r.Admits e) (hblank : Text.isBlank (Text.withoutReturn e.render) = false) :
    ∃ e', (r.read (Text.withoutReturn e.render)).value = .ok e' := by
  cases hstrict : r.isStrict with
  | false => exact ⟨_, Reader.read_of_not_strict hstrict _⟩
  | true =>
    have hkeep : r.keepTrailing = true := by simpa [hstrict] using hmode
    cases e with
    | atom text =>
      rw [Expr.render_atom] at hblank ⊢
      exact ⟨_, read_row_atom hkeep (Expr.wellFormed_atom_iff.1 h.wellFormed) hblank⟩
    | list items =>
      rw [Expr.withoutReturn_render_list]
      exact ⟨_, Reader.read_render_of_admits hkeep h⟩

/-! ## The second run -/

variable {input : String}

theorem newline_notMem_of_mem_rows {row : String}
    (h : row ∈ (treesRead r (Text.lines input)).map Expr.render) : '\n' ∉ row.toList := by
  obtain ⟨e, he, rfl⟩ := List.mem_map.1 h
  obtain ⟨line, hline, -, hread⟩ := exists_line_of_mem_treesRead he
  exact Reader.newline_notMem_render hread (Text.newline_notMem_of_mem_lines hline)

theorem admits_of_mem_treesRead (hmode : r.keepTrailing = true ∨ r.isStrict = false)
    {lines : List String} {e : Expr} (h : e ∈ treesRead r lines) : r.Admits e := by
  obtain ⟨line, -, hblank, hread⟩ := exists_line_of_mem_treesRead h
  exact Reader.admits_of_read hmode hblank hread

/-- The lines of the output are its rows, each without a carriage return at its end. -/
theorem lines_output (r : Reader) (input : String) :
    Text.lines (output r input) =
      (treesRead r (Text.lines input)).map fun e => Text.withoutReturn e.render := by
  rw [output, Text.lines_unlines fun _ => newline_notMem_of_mem_rows, List.map_map]
  rfl

theorem accepts_output (hmode : r.keepTrailing = true ∨ r.isStrict = false) :
    Accepts r (Text.lines (output r input)) := by
  intro line hline hblank
  rw [lines_output] at hline
  obtain ⟨e, he, rfl⟩ := List.mem_map.1 hline
  exact exists_read_row hmode (admits_of_mem_treesRead hmode he) hblank

/-- Outputs are the same iff their rows are. -/
theorem output_eq_iff {input input' : String} : output r input = output r input' ↔
    (treesRead r (Text.lines input)).map Expr.render =
      (treesRead r (Text.lines input')).map Expr.render := by
  exact Text.unlines_inj (fun _ => newline_notMem_of_mem_rows)
    (fun _ => newline_notMem_of_mem_rows)

/-- The output is reproduced iff every row of it is. -/
theorem output_output_eq_iff (hmode : r.keepTrailing = true ∨ r.isStrict = false) :
    output r (output r input) = output r input ↔
      ∀ e ∈ treesRead r (Text.lines input),
        (treeOf? r (Text.withoutReturn e.render)).map Expr.render = some e.render := by
  rw [output_eq_iff, treesRead_of_accepts (accepts_output hmode), lines_output,
    List.filterMap_map, List.map_filterMap, List.filterMap_eq_map_iff_forall_eq_some]
  simp only [Function.comp_apply]

theorem output_fixed_iff_of_keep (hkeep : r.keepTrailing = true) :
    output r (output r input) = output r input ↔
      ∀ text, .atom text ∈ treesRead r (Text.lines input) →
        text.toList.getLast? ≠ some '\r' ∧ Text.isBlank text = false := by
  have hwf : ∀ text, .atom text ∈ treesRead r (Text.lines input) → IsAtomText text :=
    fun text he => Expr.wellFormed_atom_iff.1 (admits_of_mem_treesRead (.inl hkeep) he).wellFormed
  rw [output_output_eq_iff (.inl hkeep)]
  refine ⟨fun h text he => ?_, fun h e he => ?_⟩
  · have := h _ he
    rw [Expr.render_atom] at this
    exact (map_treeOf?_atom_iff hkeep (hwf text he)).1 this
  · cases e with
    | atom text =>
      rw [Expr.render_atom]
      exact (map_treeOf?_atom_iff hkeep (hwf text he)).2 (h text he)
    | list items =>
      rw [treeOf?_row_list (.inl hkeep) (admits_of_mem_treesRead (.inl hkeep) he)]
      rfl

theorem output_fixed_iff_of_drop (hstrict : r.isStrict = false) (hkeep : r.keepTrailing = false) :
    output r (output r input) = output r input ↔
      ∀ text, .atom text ∉ treesRead r (Text.lines input) := by
  rw [output_output_eq_iff (.inr hstrict)]
  refine ⟨fun h text he => ?_, fun h e he => ?_⟩
  · have hwf := (admits_of_mem_treesRead (.inr hstrict) he).wellFormed
    have := h _ he
    rw [Expr.render_atom] at this
    exact map_treeOf?_atom_ne hstrict hkeep (Expr.wellFormed_atom_iff.1 hwf) this
  · cases e with
    | atom text => exact absurd he (h text)
    | list items =>
      rw [treeOf?_row_list (.inr hstrict) (admits_of_mem_treesRead (.inr hstrict) he)]
      rfl

/-- Filtering the output of a run that succeeded. The second run succeeds. A reader that keeps
trailing text writes the same again iff no bare atom among the expressions ends with a carriage
return or is white space throughout, a lenient one that drops it iff there is no bare atom; where
the output is the same, so is the number of expressions. -/
theorem canonical_output_fixed_iff {reader : Reader} {input : String} {count : Nat}
    (hmode : reader.keepTrailing = true ∨ reader.isStrict = false)
    (h : (run reader input {}).result = .ok count) :
    (run reader input {}).sink.written = (output reader input).toUTF8 ∧
      (∃ count', (run reader (output reader input) {}).result = .ok count') ∧
      (reader.keepTrailing = true →
        ((run reader (output reader input) {}).sink.written = (output reader input).toUTF8 ↔
          ∀ text, .atom text ∈ treesRead reader (Text.lines input) →
            text.toList.getLast? ≠ some '\r' ∧ Text.isBlank text = false)) ∧
      (reader.keepTrailing = false →
        ((run reader (output reader input) {}).sink.written = (output reader input).toUTF8 ↔
          ∀ text, .atom text ∉ treesRead reader (Text.lines input))) ∧
      ((run reader (output reader input) {}).sink.written = (output reader input).toUTF8 →
        (run reader (output reader input) {}).result = .ok count) := by
  have haccepts : Accepts reader (Text.lines (output reader input)) := accepts_output hmode
  have hsame : (run reader (output reader input) {}).sink.written =
      (output reader input).toUTF8 ↔
        output reader (output reader input) = output reader input := by
    rw [written_run, String.toUTF8_eq_toByteArray, String.toUTF8_eq_toByteArray,
      String.toByteArray_inj]
  refine ⟨written_run reader input, ⟨_, result_run_eq_ok_iff.2 ⟨haccepts, rfl⟩⟩, ?_, ?_,
    ?_⟩
  · intro hkeep
    rw [hsame, output_fixed_iff_of_keep hkeep]
  · intro hkeep
    have hstrict : reader.isStrict = false := by simpa [hkeep] using hmode
    rw [hsame, output_fixed_iff_of_drop hstrict hkeep]
  · intro heq
    have hrows := congrArg List.length (output_eq_iff.1 (hsame.1 heq))
    rw [List.length_map, List.length_map] at hrows
    rw [result_run_eq_ok_iff, hrows]
    exact ⟨haccepts, (result_run_eq_ok_iff.1 h).2⟩

/-- Of two carriage returns in front of a line feed, the first is written as the end of an atom, and
is then read as part of the line ending. -/
theorem canonical_output_fixed_iff_return :
    (run (Reader.lenient.withTrailing true) "foo\r\r\n(a b)" {}).result = .ok 2 ∧
      (run (Reader.lenient.withTrailing true)
          (output (Reader.lenient.withTrailing true) "foo\r\r\n(a b)") {}).sink.written ≠
        (output (Reader.lenient.withTrailing true) "foo\r\r\n(a b)").toUTF8 := by
  have htrees : treesRead (Reader.lenient.withTrailing true) (Text.lines "foo\r\r\n(a b)") =
      [.atom "foo\r", .list [.atom "a", .atom "b"]] := by cbv
  have hresult : (run (Reader.lenient.withTrailing true) "foo\r\r\n(a b)" {}).result = .ok 2 := by
    rw [result_run_eq_ok_iff, htrees]
    exact ⟨accepts_of_not_strict rfl _, rfl⟩
  refine ⟨hresult, ?_⟩
  rw [Ne, (canonical_output_fixed_iff (.inl rfl) hresult).2.2.1 rfl, htrees]
  intro hatoms
  exact (hatoms "foo\r" List.mem_cons_self).1 (by simp)

end LineFilter

end Sexp
