import Sexp.Text.Lines

/-!
# Rows

A text is made of rows by a line feed behind each. The lines of the text are the rows again, except
that one carriage return at the end of a row is lost.

* `append_cons_inj`: what stands in front of the first separator can be told from what follows.
* `Text.lines_unlines`: a text of rows is split into these rows again, each without a carriage
  return at its end.
* `Text.withoutReturn_eq_self_iff`: the rows that come back unchanged.
* `Text.newline_notMem_of_mem_lines`: no line holds a line feed.
* `Text.unlines_inj`: rows without line feeds can be told from the text.
* `Text.lines_append`, `Text.length_lines`: a text whose last line is ended may be followed by
  another, and has as many lines as line feeds.
-/

namespace Sexp

/-- What stands in front of the first separator `a`. -/
theorem append_cons_inj {α : Type} [DecidableEq α] {a : α} {as bs x y : List α} (ha : a ∉ as)
    (hb : a ∉ bs) (h : as ++ a :: x = bs ++ a :: y) : as = bs ∧ x = y := by
  have hlen : as.length = bs.length := by
    have := congrArg (List.idxOf a) h
    rwa [List.idxOf_append, List.idxOf_append, if_neg ha, if_neg hb, List.idxOf_cons_self,
      List.idxOf_cons_self, Nat.zero_add, Nat.zero_add] at this
  obtain ⟨hfront, hback⟩ := List.append_inj h hlen
  exact ⟨hfront, (List.cons.inj hback).2⟩

/-! ## Rows of a text -/

namespace Text

/-- The text with these rows, each of which ends with a line feed. -/
def unlines (rows : List String) : String :=
  String.join (rows.map (· ++ "\n"))

/-- A row without the carriage return at its end, if there is one. -/
def withoutReturn (row : String) : String :=
  String.ofList (dropReturn row.toList.reverse).reverse

theorem unlines_cons (row : String) (rows : List String) :
    unlines (row :: rows) = row ++ "\n" ++ unlines rows := by
  rw [unlines, List.map_cons, String.join_cons]
  rfl

theorem toList_unlines_cons (row : String) (rows : List String) :
    (unlines (row :: rows)).toList = row.toList ++ '\n' :: (unlines rows).toList := by
  rw [unlines_cons]
  simp

theorem toUTF8_join_nil : (String.join []).toUTF8 = .empty := by
  rw [String.join_nil, String.toUTF8_eq_toByteArray, String.toByteArray_empty]

theorem toUTF8_join_cons (text : String) (texts : List String) :
    (String.join (text :: texts)).toUTF8 = text.toUTF8 ++ (String.join texts).toUTF8 := by
  simp only [String.join_cons, String.toUTF8_eq_toByteArray, String.toByteArray_append]

theorem toUTF8_unlines_nil : (unlines []).toUTF8 = .empty := toUTF8_join_nil

theorem toUTF8_unlines_cons (row : String) (rows : List String) :
    (unlines (row :: rows)).toUTF8 = (row ++ "\n").toUTF8 ++ (unlines rows).toUTF8 :=
  toUTF8_join_cons _ _

theorem dropReturn_subset (cs : List Char) : dropReturn cs ⊆ cs := by
  unfold dropReturn
  split
  · exact List.subset_cons_self _ _
  · exact List.Subset.refl _

theorem dropReturn_eq_self_iff {cs : List Char} : dropReturn cs = cs ↔ cs.head? ≠ some '\r' := by
  cases cs with
  | nil => simp [dropReturn]
  | cons c cs =>
    by_cases hc : c = '\r'
    · subst hc
      simp [dropReturn]
    · have hdrop : dropReturn (c :: cs) = c :: cs := by
        unfold dropReturn
        split
        · rename_i rest heq
          exact absurd (List.cons.inj heq).1 hc
        · rfl
      simp [hdrop, hc]

/-- Only a carriage return at the end of a row is lost. -/
theorem withoutReturn_eq_self_iff {row : String} :
    withoutReturn row = row ↔ row.toList.getLast? ≠ some '\r' := by
  rw [← String.toList_inj, withoutReturn, String.toList_ofList, List.reverse_eq_iff,
    dropReturn_eq_self_iff, List.head?_reverse]

theorem withoutReturn_subset (row : String) : (withoutReturn row).toList ⊆ row.toList := by
  rw [withoutReturn, String.toList_ofList]
  intro c hc
  exact List.mem_reverse.1 (dropReturn_subset _ (List.mem_reverse.1 hc))

theorem linesFrom_row {cs : List Char} (h : '\n' ∉ cs) (recent ds : List Char) :
    linesFrom recent (cs ++ '\n' :: ds) =
      String.ofList (dropReturn (cs.reverse ++ recent)).reverse :: linesFrom [] ds := by
  induction cs generalizing recent with
  | nil => simp [linesFrom]
  | cons c cs ih =>
    rw [List.mem_cons, not_or] at h
    have hc : (c == '\n') = false := by simpa using Ne.symm h.1
    rw [List.cons_append, linesFrom, hc, if_neg (by simp), ih h.2, List.reverse_cons,
      List.append_assoc, List.singleton_append]

/-- A text of rows is split into these rows again. -/
theorem lines_unlines {rows : List String} (h : ∀ row ∈ rows, '\n' ∉ row.toList) :
    lines (unlines rows) = rows.map withoutReturn := by
  rw [lines_eq_linesFrom]
  induction rows with
  | nil => simp [unlines, linesFrom]
  | cons row rows ih =>
    rw [toList_unlines_cons, linesFrom_row (h row List.mem_cons_self), List.append_nil,
      ih fun row hrow => h row (List.mem_cons_of_mem _ hrow)]
    rfl

theorem newline_notMem_of_mem_linesFrom {recent cs : List Char} (h : '\n' ∉ recent) {line : String}
    (hline : line ∈ linesFrom recent cs) : '\n' ∉ line.toList := by
  induction cs generalizing recent with
  | nil =>
    unfold linesFrom at hline
    split at hline
    · cases hline
    · rw [List.mem_singleton.1 hline]
      simpa using h
  | cons c cs ih =>
    unfold linesFrom at hline
    split at hline
    · rcases List.mem_cons.1 hline with rfl | hline
      · rw [String.toList_ofList, List.mem_reverse]
        exact fun hmem => h (dropReturn_subset recent hmem)
      · exact ih List.not_mem_nil hline
    · rename_i hc
      refine ih ?_ hline
      rw [List.mem_cons, not_or]
      exact ⟨fun heq => hc (by simp [← heq]), h⟩

/-- No line of a text holds a line feed. -/
theorem newline_notMem_of_mem_lines {text line : String} (h : line ∈ lines text) :
    '\n' ∉ line.toList := by
  rw [lines_eq_linesFrom] at h
  exact newline_notMem_of_mem_linesFrom List.not_mem_nil h

/-- Rows without line feeds can be told from the text. -/
theorem unlines_inj {rows rows' : List String} (h : ∀ row ∈ rows, '\n' ∉ row.toList)
    (h' : ∀ row ∈ rows', '\n' ∉ row.toList) : unlines rows = unlines rows' ↔ rows = rows' := by
  refine ⟨fun heq => ?_, fun heq => by rw [heq]⟩
  rw [← String.toList_inj] at heq
  induction rows generalizing rows' with
  | nil =>
    cases rows' with
    | nil => rfl
    | cons row' rows' =>
      rw [toList_unlines_cons] at heq
      simp [unlines] at heq
  | cons row rows ih =>
    cases rows' with
    | nil =>
      rw [toList_unlines_cons] at heq
      simp [unlines] at heq
    | cons row' rows' =>
      rw [toList_unlines_cons, toList_unlines_cons] at heq
      obtain ⟨hrow, hrest⟩ :=
        append_cons_inj (h row List.mem_cons_self) (h' row' List.mem_cons_self) heq
      rw [String.toList_inj.1 hrow, ih (fun row hrow => h row (List.mem_cons_of_mem _ hrow))
        (fun row hrow => h' row (List.mem_cons_of_mem _ hrow)) hrest]

/-! ## Texts whose last line is ended -/

/-- The text is empty or ends with a line feed. -/
def EndsLine (text : String) : Prop :=
  text = "" ∨ ∃ front, text = front ++ "\n"

theorem linesFrom_append (recent cs ds : List Char) :
    linesFrom recent (cs ++ '\n' :: ds) = linesFrom recent (cs ++ ['\n']) ++ linesFrom [] ds := by
  induction cs generalizing recent with
  | nil => simp [linesFrom]
  | cons c cs ih =>
    by_cases hc : (c == '\n') = true
    · simp only [List.cons_append, linesFrom, hc, if_true, ih]
    · simp only [List.cons_append, linesFrom, hc, if_false, ih, Bool.false_eq_true]

theorem length_linesFrom (recent cs : List Char) :
    (linesFrom recent (cs ++ ['\n'])).length = (cs ++ ['\n']).count '\n' := by
  induction cs generalizing recent with
  | nil => simp [linesFrom]
  | cons c cs ih =>
    by_cases hc : c = '\n'
    · rw [hc, List.cons_append, linesFrom, if_pos (by simp), List.length_cons, ih,
        List.count_cons_self]
    · rw [List.cons_append, linesFrom, if_neg (by simpa using hc), ih,
        List.count_cons_of_ne hc]

/-- Behind a text whose last line is ended, another text has its own lines. -/
theorem lines_append {text : String} (h : EndsLine text) (rest : String) :
    lines (text ++ rest) = lines text ++ lines rest := by
  rcases h with rfl | ⟨front, rfl⟩
  · rw [String.empty_append]
    rfl
  · simp only [lines_eq_linesFrom, String.toList_append, List.append_assoc]
    exact linesFrom_append [] front.toList rest.toList

theorem length_lines {text : String} (h : EndsLine text) :
    (lines text).length = text.toList.count '\n' := by
  rcases h with rfl | ⟨front, rfl⟩
  · rfl
  · rw [lines_eq_linesFrom, String.toList_append]
    exact length_linesFrom [] front.toList

end Text

end Sexp
