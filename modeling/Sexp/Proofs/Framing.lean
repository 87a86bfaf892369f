import Sexp.Proofs.Refilter

/-!
# Frames

Every expression that a run of the line filter writes stays on a line of its own, whatever else its
atoms hold, so the output can be cut into the expressions again. A line that is rejected is named by
the number of line feeds in front of it.

* `Text.isBlank_iff_whiteSpace`: the lines that are skipped.
* `Text.splitOn_unlines`, `Text.count_unlines`: a text of rows is cut at its line feeds.
* `Text.exists_append_of_lines`: where in a text one of its lines begins.
* `LineFilter.framed_output`: the output of a run.
* `LineFilter.run_framed`: a whole run.
-/

namespace Sexp

namespace Text

/-! ## White space -/

/-- The code points that have the property `White_Space`. -/
def whiteSpace : List Nat :=
  [0x9, 0xa, 0xb, 0xc, 0xd, 0x20, 0x85, 0xa0, 0x1680, 0x2000, 0x2001, 0x2002, 0x2003, 0x2004,
    0x2005, 0x2006, 0x2007, 0x2008, 0x2009, 0x200a, 0x2028, 0x2029, 0x202f, 0x205f, 0x3000]

theorem isWhite_iff_mem {c : Char} : isWhite c = true ↔ c.toNat ∈ whiteSpace := by
  simp only [isWhite, whiteSpace, List.mem_cons, List.not_mem_nil, Bool.or_eq_true,
    Bool.and_eq_true, decide_eq_true_eq, beq_iff_eq, or_false]
  omega

theorem isBlank_iff_whiteSpace {line : String} :
    isBlank line = true ↔ ∀ c ∈ line.toList, c.toNat ∈ whiteSpace := by
  simp only [isBlank_iff, isWhite_iff_mem]

/-! ## Rows and line feeds -/

/-- Cut at the line feeds, a text of rows gives the rows; nothing stands behind the last one. -/
theorem splitOn_unlines {rows : List String} (h : ∀ row ∈ rows, '\n' ∉ row.toList) :
    (unlines rows).toList.splitOn '\n' = rows.map String.toList ++ [[]] := by
  induction rows with
  | nil => rfl
  | cons row rows ih =>
    rw [toList_unlines_cons, List.splitOn_append_cons_self_of_not_mem (h row List.mem_cons_self),
      ih fun row hrow => h row (List.mem_cons_of_mem _ hrow)]
    rfl

theorem count_unlines {rows : List String} (h : ∀ row ∈ rows, '\n' ∉ row.toList) :
    (unlines rows).toList.count '\n' = rows.length := by
  induction rows with
  | nil => rfl
  | cons row rows ih =>
    rw [toList_unlines_cons, List.count_append,
      List.count_eq_zero_of_not_mem (h row List.mem_cons_self), List.count_cons_self,
      ih fun row hrow => h row (List.mem_cons_of_mem _ hrow), Nat.zero_add, List.length_cons]

/-! ## Where a line begins -/

theorem EndsLine.append {text rest : String} (h : EndsLine text) (hrest : EndsLine rest) :
    EndsLine (text ++ rest) := by
  rcases hrest with rfl | ⟨front, rfl⟩
  · rwa [String.append_empty]
  · exact .inr ⟨text ++ front, (String.append_assoc ..).symm⟩

/-- Characters without a line feed are one line, or none. -/
theorem length_linesFrom_le (recent : List Char) {cs : List Char} (h : '\n' ∉ cs) :
    (linesFrom recent cs).length ≤ 1 := by
  induction cs generalizing recent with
  | nil =>
    unfold linesFrom
    split <;> simp
  | cons c cs ih =>
    rw [List.mem_cons, not_or] at h
    have hc : ¬ (c == '\n') = true := by simpa using Ne.symm h.1
    rw [linesFrom, if_neg hc]
    exact ih (c :: recent) h.2

/-- The first of several lines ends with a line feed. -/
theorem exists_cut_of_lines {text line : String} {after : List String}
    (h : lines text = line :: after) (hafter : after ≠ []) :
    ∃ front rest, text = front ++ rest ∧ EndsLine front ∧ lines front = [line] ∧
      lines rest = after := by
  have hmem : '\n' ∈ text.toList := by
    by_contra hnone
    have hlength := length_linesFrom_le [] hnone
    rw [← lines_eq_linesFrom, h, List.length_cons] at hlength
    exact hafter (List.length_eq_zero_iff.1 (by omega))
  obtain ⟨row, rest, htext, hrow⟩ := List.eq_append_cons_of_mem hmem
  have hsplit : text = (String.ofList row ++ "\n") ++ String.ofList rest := by
    rw [← String.toList_inj, htext]
    simp
  have hends : EndsLine (String.ofList row ++ "\n") := .inr ⟨_, rfl⟩
  have hfirst : lines (String.ofList row ++ "\n") = [withoutReturn (String.ofList row)] := by
    have hunlines : lines (unlines [String.ofList row]) = [withoutReturn (String.ofList row)] :=
      lines_unlines (by simpa using hrow)
    rwa [unlines_cons, show unlines [] = "" from rfl, String.append_empty] at hunlines
  rw [hsplit, lines_append hends, hfirst, List.singleton_append] at h
  obtain ⟨hline, hrest⟩ := List.cons.inj h
  exact ⟨_, _, hsplit, hends, by rw [hfirst, hline], hrest⟩

/-- A line begins behind the part of the text that has the lines in front of it. -/
theorem exists_append_of_lines {text line : String} {before after : List String}
    (h : lines text = before ++ line :: after) :
    ∃ front rest, text = front ++ rest ∧ EndsLine front ∧ lines front = before ∧
      lines rest = line :: after := by
  induction before generalizing text with
  | nil => exact ⟨"", text, (String.empty_append).symm, .inl rfl, rfl, h⟩
  | cons first before ih =>
    obtain ⟨front, rest, rfl, hfront, hfirst, hrest⟩ := exists_cut_of_lines h (by simp)
    obtain ⟨front', rest', rfl, hfront', hbefore, hline⟩ := ih hrest
    refine ⟨front ++ front', rest', (String.append_assoc ..).symm, hfront.append hfront', ?_, hline⟩
    rw [lines_append hfront, hfirst, hbefore, List.singleton_append]

end Text

namespace LineFilter

/-! ## The output -/

/-- `text` is the canonical texts of `trees`, each on a line of its own: it can be cut into them at
its line feeds. -/
structure Framed (text : String) (trees : List Expr) : Prop where
  rows : text.toList.splitOn '\n' = trees.map (fun e => e.render.toList) ++ [[]]
  count : text.toList.count '\n' = trees.length

theorem framed_output (reader : Reader) (input : String) :
    Framed (output reader input) (treesRead reader (Text.lines input)) := by
  have hrows : ∀ row ∈ (treesRead reader (Text.lines input)).map Expr.render,
      '\n' ∉ row.toList := fun _ => newline_notMem_of_mem_rows
  constructor
  · rw [output, Text.splitOn_unlines hrows, List.map_map]
    rfl
  · rw [output, Text.count_unlines hrows, List.length_map]

/-! ## The lines that are read -/

/-- The reader takes the lines that are not blank, and `trees` are what it returns for them. -/
def ReadAs (reader : Reader) (lines : List String) (trees : List Expr) : Prop :=
  (lines.filter fun line => !Text.isBlank line).map (fun line => (reader.read line).value) =
    trees.map .ok

theorem readAs_of_accepts {reader : Reader} {lines : List String} (h : Accepts reader lines) :
    ReadAs reader lines (treesRead reader lines) := by
  induction lines with
  | nil => rfl
  | cons line lines ih =>
    rcases line_cases reader line with hblank | ⟨hblank, e, hread⟩ | ⟨hblank, err, hread⟩
    · rw [accepts_cons_of_blank hblank] at h
      rw [treesRead_cons_of_blank hblank, ReadAs, List.filter_cons_of_neg (by simp [hblank])]
      exact ih h
    · rw [accepts_cons hread] at h
      rw [treesRead_cons_of_ok hblank hread, ReadAs, List.filter_cons_of_pos (by simp [hblank]),
        List.map_cons, hread, ih h, List.map_cons]
    · exact absurd h (not_accepts_of_mem List.mem_cons_self hblank hread)

/-- Behind `front`, a line of `input` begins that is rejected with `error`. -/
structure RejectsBehind (reader : Reader) (input front : String) (error : ReadError) : Prop where
  ends : Text.EndsLine front
  exists_line : ∃ rest line after, input = front ++ rest ∧ Text.lines rest = line :: after ∧
    Text.isBlank line = false ∧ (reader.read line).value = .error error

/-! ## Whole runs -/

/-- A run without a limit. Its output can be cut at the line feeds into the canonical texts of the
expressions, one each. These are what the reader returns for the lines that are not blank: for all
of them, where the run succeeds with their number, and otherwise for those in front of the first
line that is rejected, whose number is one more than there are line feeds in front of it. A line is
blank iff it is white space throughout. -/
theorem run_framed (reader : Reader) (input : String) :
    (∃ text trees, (run reader input {}).sink.written = text.toUTF8 ∧ Framed text trees ∧
      ((ReadAs reader (Text.lines input) trees ∧
          (run reader input {}).result = .ok trees.length) ∨
        ∃ front error, RejectsBehind reader input front error ∧
          ReadAs reader (Text.lines front) trees ∧
          (run reader input {}).result =
            .error (.parse (1 + front.toList.count '\n') error))) ∧
      ∀ line, Text.isBlank line = true ↔ ∀ c ∈ line.toList, c.toNat ∈ Text.whiteSpace := by
  refine ⟨?_, fun line => Text.isBlank_iff_whiteSpace⟩
  rcases accepts_or_firstRejected reader (Text.lines input) with haccepts | ⟨before, error, hfirst⟩
  · exact ⟨output reader input, _, written_run reader input, framed_output reader input,
      .inl ⟨readAs_of_accepts haccepts, (run_ends_of_accepts haccepts).1⟩⟩
  · obtain ⟨line, after, hlines, hblank, hread⟩ := hfirst.exists_line
    obtain ⟨front, rest, hinput, hfront, rfl, hrest⟩ := Text.exists_append_of_lines hlines
    obtain ⟨hresult, hwritten⟩ := hfirst.run_ends
    have hrows : rows reader (Text.lines front) = output reader front := by
      rw [output, treesRead_of_accepts hfirst.accepts, rows]
    refine ⟨output reader front, _, by rw [hwritten, hrows], framed_output reader front,
      .inr ⟨front, error, ⟨hfront, rest, line, after, hinput, hrest, hblank, hread⟩,
        readAs_of_accepts hfirst.accepts, ?_⟩⟩
    rw [hresult, Text.length_lines hfront, Nat.add_comm]

-- the line that is skipped counts, and the vertical tab inside the atom ends no line
example : (run .strict "(a\x0bb)\n\u2003\n(c" {}).result = .error (.parse 3 (.unclosedList 0)) := by
  cbv

end LineFilter

end Sexp
