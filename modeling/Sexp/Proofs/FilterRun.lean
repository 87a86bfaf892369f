import Sexp.LineFilter.Run
import Sexp.Proofs.Rows

/-!
# Runs of the line filter

On a sink without a limit, a run writes the canonical text of every expression that the reader
returns, each on a line of its own, and stops only at a line that the reader rejects.

* `sink_runFrom`, `result_runFrom_eq_ok_iff`: what a run writes, and when it succeeds.
* `written_run`, `result_run_eq_ok_iff`: the same for a whole input.
* `treesRead_of_accepts`: where no line is rejected, each line is read by itself.
* `runFrom_append_of_error`, `runFrom_append_of_ok`: lines in front of others, for any sink.
* `run_ends_of_accepts`, `FirstRejected.run_ends`: the two ways in which a run ends.
-/

namespace Sexp

/-! ## Writing without a limit -/

theorem Sink.writeTexts_unlimited (written : ByteArray) (refusal : Refusal) (texts : List String) :
    writeTexts ⟨written, none, refusal⟩ texts =
      (⟨written ++ (String.join texts).toUTF8, none, refusal⟩, none) := by
  induction texts generalizing written with
  | nil => rw [writeTexts, Text.toUTF8_join_nil, ByteArray.append_empty]
  | cons text texts ih =>
    rw [writeTexts, writeAll_unlimited]
    simp only [ih, Text.toUTF8_join_cons, ByteArray.append_assoc]

theorem join_pieces (e : Expr) :
    String.join (e.pieces .canonical ++ ["\n"]) = e.render ++ "\n" := by
  rw [String.join_append]
  rfl

namespace LineFilter

/-! ## What a run reads and writes -/

/-- The expressions that the reader returns for the lines in front of the first that it rejects;
blank lines are left out. -/
def treesRead (reader : Reader) : List String → List Expr
  | [] => []
  | line :: lines =>
    if Text.isBlank line then treesRead reader lines
    else
      match (reader.read line).value with
      | .ok e => e :: treesRead reader lines
      | .error _ => []

/-- The reader takes every line that is not blank. -/
def Accepts (reader : Reader) (lines : List String) : Prop :=
  ∀ line ∈ lines, Text.isBlank line = false → ∃ e, (reader.read line).value = .ok e

/-- A lenient reader takes every line. -/
theorem accepts_of_not_strict {reader : Reader} (h : reader.isStrict = false)
    (lines : List String) : Accepts reader lines :=
  fun line _ _ => ⟨_, Reader.read_of_not_strict h line⟩

section
variable {reader : Reader} {lineno count : Nat} {written : ByteArray} {refusal : Refusal}
  {events : Array Event} {line : String} {lines : List String}

theorem runFrom_cons_of_written {e : Expr} {sink sink' : Sink} (hblank : Text.isBlank line = false)
    (hread : (reader.read line).value = .ok e)
    (hwrite : sink.writeTexts (e.pieces .canonical ++ ["\n"]) = (sink', none)) :
    runFrom reader lineno count sink events (line :: lines) =
      runFrom reader (lineno + 1) (count + 1) sink'
        ((events ++ (reader.read line).events).push (.lineRead lineno e)) lines := by
  rw [runFrom, hblank, if_neg (by simp)]
  simp only [hread, hwrite]

theorem runFrom_cons_of_refused {e : Expr} {sink sink' : Sink} {fault : StreamFault}
    (hblank : Text.isBlank line = false) (hread : (reader.read line).value = .ok e)
    (hwrite : sink.writeTexts (e.pieces .canonical ++ ["\n"]) = (sink', some fault)) :
    runFrom reader lineno count sink events (line :: lines) =
      ⟨.error (.output fault), sink',
        (events ++ (reader.read line).events).push (.lineRead lineno e)⟩ := by
  rw [runFrom, hblank, if_neg (by simp)]
  simp only [hread, hwrite]

theorem runFrom_cons_of_ok {e : Expr} (hblank : Text.isBlank line = false)
    (hread : (reader.read line).value = .ok e) :
    runFrom reader lineno count ⟨written, none, refusal⟩ events (line :: lines) =
      runFrom reader (lineno + 1) (count + 1)
        ⟨written ++ (e.render ++ "\n").toUTF8, none, refusal⟩
        ((events ++ (reader.read line).events).push (.lineRead lineno e)) lines := by
  apply runFrom_cons_of_written hblank hread
  rw [Sink.writeTexts_unlimited, join_pieces]

theorem runFrom_cons_of_error {err : ReadError} (hblank : Text.isBlank line = false)
    (hread : (reader.read line).value = .error err) (sink : Sink) :
    runFrom reader lineno count sink events (line :: lines) =
      ⟨.error (.parse lineno err), sink, events ++ (reader.read line).events⟩ := by
  rw [runFrom, hblank, if_neg (by simp)]
  simp only [hread]

theorem treesRead_cons_of_ok {e : Expr} (hblank : Text.isBlank line = false)
    (hread : (reader.read line).value = .ok e) :
    treesRead reader (line :: lines) = e :: treesRead reader lines := by
  rw [treesRead, hblank, if_neg (by simp), hread]

theorem treesRead_cons_of_error {err : ReadError} (hblank : Text.isBlank line = false)
    (hread : (reader.read line).value = .error err) :
    treesRead reader (line :: lines) = [] := by
  rw [treesRead, hblank, if_neg (by simp), hread]

theorem treesRead_cons_of_blank (hblank : Text.isBlank line = true) :
    treesRead reader (line :: lines) = treesRead reader lines := by
  rw [treesRead, if_pos hblank]

/-- A line is blank, or an expression, or rejected. -/
theorem line_cases (reader : Reader) (line : String) :
    Text.isBlank line = true ∨
      (Text.isBlank line = false ∧ ∃ e, (reader.read line).value = .ok e) ∨
      (Text.isBlank line = false ∧ ∃ err, (reader.read line).value = .error err) := by
  cases hblank : Text.isBlank line with
  | true => exact .inl rfl
  | false =>
    cases hread : (reader.read line).value with
    | ok e => exact .inr (.inl ⟨rfl, e, rfl⟩)
    | error err => exact .inr (.inr ⟨rfl, err, rfl⟩)

/-- A run writes the canonical texts of the expressions that are read, each on a line of its own. -/
theorem sink_runFrom (reader : Reader) (lineno count : Nat) (written : ByteArray)
    (refusal : Refusal) (events : Array Event) (lines : List String) :
    (runFrom reader lineno count ⟨written, none, refusal⟩ events lines).sink =
      ⟨written ++ (Text.unlines ((treesRead reader lines).map Expr.render)).toUTF8, none,
        refusal⟩ := by
  induction lines generalizing lineno count written events with
  | nil =>
    rw [runFrom_nil, treesRead, List.map_nil, Text.toUTF8_unlines_nil, ByteArray.append_empty]
  | cons line lines ih =>
    rcases line_cases reader line with hblank | ⟨hblank, e, hread⟩ | ⟨hblank, err, hread⟩
    · rw [runFrom_blank hblank, ih, treesRead_cons_of_blank hblank]
    · rw [runFrom_cons_of_ok hblank hread, ih, treesRead_cons_of_ok hblank hread, List.map_cons,
        Text.toUTF8_unlines_cons, ByteArray.append_assoc]
    · rw [runFrom_cons_of_error hblank hread, treesRead_cons_of_error hblank hread, List.map_nil,
        Text.toUTF8_unlines_nil, ByteArray.append_empty]

theorem accepts_cons_of_blank (hblank : Text.isBlank line = true) :
    Accepts reader (line :: lines) ↔ Accepts reader lines := by
  simp [Accepts, hblank]

theorem accepts_cons {e : Expr} (hread : (reader.read line).value = .ok e) :
    Accepts reader (line :: lines) ↔ Accepts reader lines := by
  simp [Accepts, hread]

theorem not_accepts_of_mem {err : ReadError} (hline : line ∈ lines)
    (hblank : Text.isBlank line = false) (hread : (reader.read line).value = .error err) :
    ¬ Accepts reader lines := by
  intro h
  obtain ⟨e, he⟩ := h line hline hblank
  rw [hread] at he
  cases he

/-- A run succeeds iff the reader takes every line, and then returns the number of expressions. -/
theorem result_runFrom_eq_ok_iff {n : Nat} :
    (runFrom reader lineno count ⟨written, none, refusal⟩ events lines).result = .ok n ↔
      Accepts reader lines ∧ n = count + (treesRead reader lines).length := by
  induction lines generalizing lineno count written events with
  | nil =>
    rw [runFrom_nil]
    simp [Accepts, treesRead, @eq_comm _ n]
  | cons line lines ih =>
    rcases line_cases reader line with hblank | ⟨hblank, e, hread⟩ | ⟨hblank, err, hread⟩
    · rw [runFrom_blank hblank, ih, treesRead_cons_of_blank hblank, accepts_cons_of_blank hblank]
    · rw [runFrom_cons_of_ok hblank hread, ih, treesRead_cons_of_ok hblank hread,
        accepts_cons hread, List.length_cons]
      simp only [Nat.add_assoc, Nat.add_comm 1]
    · rw [runFrom_cons_of_error hblank hread]
      simp [not_accepts_of_mem List.mem_cons_self hblank hread]

end

/-! ## Lines in front of others -/

section
variable {reader : Reader} {lineno count : Nat} {sink : Sink} {events : Array Event}
  {before : List String}

/-- Where a run fails, the lines behind it make no difference. -/
theorem runFrom_append_of_error {error : FilterError}
    (h : (runFrom reader lineno count sink events before).result = .error error)
    (lines : List String) :
    runFrom reader lineno count sink events (before ++ lines) =
      runFrom reader lineno count sink events before := by
  induction before generalizing lineno count sink events with
  | nil => cases h
  | cons line before ih =>
    rw [List.cons_append]
    rcases line_cases reader line with hblank | ⟨hblank, e, hread⟩ | ⟨hblank, err, hread⟩
    · rw [runFrom_blank hblank] at h ⊢
      rw [runFrom_blank hblank, ih h]
    · rcases hwrite : sink.writeTexts (e.pieces .canonical ++ ["\n"]) with ⟨sink', _ | fault⟩
      · rw [runFrom_cons_of_written hblank hread hwrite] at h ⊢
        rw [runFrom_cons_of_written hblank hread hwrite, ih h]
      · rw [runFrom_cons_of_refused hblank hread hwrite,
          runFrom_cons_of_refused hblank hread hwrite]
    · rw [runFrom_cons_of_error hblank hread, runFrom_cons_of_error hblank hread]

/-- Where a run succeeds, the lines behind it are filtered from there on, with the sink that it
leaves. -/
theorem runFrom_append_of_ok {n : Nat}
    (h : (runFrom reader lineno count sink events before).result = .ok n) (lines : List String) :
    runFrom reader lineno count sink events (before ++ lines) =
      runFrom reader (lineno + before.length) n
        (runFrom reader lineno count sink events before).sink
        (runFrom reader lineno count sink events before).events lines := by
  induction before generalizing lineno count sink events with
  | nil =>
    cases h
    rfl
  | cons line before ih =>
    have hlineno : lineno + (line :: before).length = lineno + 1 + before.length := by
      rw [List.length_cons, Nat.add_assoc, Nat.add_comm 1]
    rw [List.cons_append, hlineno]
    rcases line_cases reader line with hblank | ⟨hblank, e, hread⟩ | ⟨hblank, err, hread⟩
    · rw [runFrom_blank hblank] at h ⊢
      rw [runFrom_blank hblank, ih h]
    · rcases hwrite : sink.writeTexts (e.pieces .canonical ++ ["\n"]) with ⟨sink', _ | fault⟩
      · rw [runFrom_cons_of_written hblank hread hwrite] at h ⊢
        rw [runFrom_cons_of_written hblank hread hwrite, ih h]
      · rw [runFrom_cons_of_refused hblank hread hwrite] at h
        cases h
    · rw [runFrom_cons_of_error hblank hread] at h
      cases h

theorem runFrom_of_blank (h : ∀ line ∈ before, Text.isBlank line = true) (lineno : Nat) :
    runFrom reader lineno count sink events before = ⟨.ok count, sink, events⟩ := by
  induction before generalizing lineno with
  | nil => rfl
  | cons line before ih =>
    rw [runFrom_blank (h line List.mem_cons_self),
      ih fun l hl => h l (List.mem_cons_of_mem _ hl)]

end

/-- A run of a lenient reader is not ended by a line. -/
theorem result_runFrom_ne_parse {reader : Reader} (h : reader.isStrict = false)
    (lineno count : Nat) (sink : Sink) (events : Array Event) (lines : List String) {n : Nat}
    {error : ReadError} :
    (runFrom reader lineno count sink events lines).result ≠ .error (.parse n error) := by
  induction lines generalizing lineno count sink events with
  | nil => exact fun heq => by cases heq
  | cons line lines ih =>
    rcases line_cases reader line with hblank | ⟨hblank, e, hread⟩ | ⟨-, err, hread⟩
    · rw [runFrom_blank hblank]
      exact ih (lineno + 1) count sink events
    · rcases hwrite : sink.writeTexts (e.pieces .canonical ++ ["\n"]) with ⟨sink', _ | fault⟩
      · rw [runFrom_cons_of_written hblank hread hwrite]
        exact ih (lineno + 1) (count + 1) _ _
      · rw [runFrom_cons_of_refused hblank hread hwrite]
        exact fun heq => by cases heq
    · rw [Reader.read_of_not_strict h] at hread
      cases hread

/-! ## Whole runs -/

/-- The canonical texts of the expressions that are read from a text, each on a line of its own. -/
def output (reader : Reader) (input : String) : String :=
  Text.unlines ((treesRead reader (Text.lines input)).map Expr.render)

theorem written_run (reader : Reader) (input : String) :
    (run reader input {}).sink.written = (output reader input).toUTF8 := by
  rw [run, sink_runFrom, ByteArray.empty_append, output]

theorem result_run_eq_ok_iff {reader : Reader} {input : String} {n : Nat} :
    (run reader input {}).result = .ok n ↔
      Accepts reader (Text.lines input) ∧ n = (treesRead reader (Text.lines input)).length := by
  rw [run, result_runFrom_eq_ok_iff, Nat.zero_add]

/-- The expression that a line holds, if it is neither blank nor rejected. -/
def treeOf? (reader : Reader) (line : String) : Option Expr :=
  if Text.isBlank line then none else (reader.read line).value.toOption

/-- Where the reader takes every line, each line is read by itself. -/
theorem treesRead_of_accepts {reader : Reader} {lines : List String} (h : Accepts reader lines) :
    treesRead reader lines = lines.filterMap (treeOf? reader) := by
  induction lines with
  | nil => rfl
  | cons line lines ih =>
    rcases line_cases reader line with hblank | ⟨hblank, e, hread⟩ | ⟨hblank, err, hread⟩
    · rw [accepts_cons_of_blank hblank] at h
      rw [treesRead_cons_of_blank hblank, List.filterMap_cons, treeOf?, if_pos hblank, ih h]
    · rw [accepts_cons hread] at h
      rw [treesRead_cons_of_ok hblank hread, List.filterMap_cons, treeOf?, hblank, hread, ih h]
      rfl
    · exact absurd h (not_accepts_of_mem List.mem_cons_self hblank hread)

/-- The canonical texts of the expressions on the lines, each on a line of its own. -/
def rows (reader : Reader) (lines : List String) : String :=
  Text.unlines ((lines.filterMap (treeOf? reader)).map Expr.render)

/-- Every expression that is read comes from a line that is not blank. -/
theorem exists_line_of_mem_treesRead {reader : Reader} {lines : List String} {e : Expr}
    (h : e ∈ treesRead reader lines) :
    ∃ line ∈ lines, Text.isBlank line = false ∧ (reader.read line).value = .ok e := by
  induction lines with
  | nil => cases h
  | cons line lines ih =>
    rcases line_cases reader line with hblank | ⟨hblank, e', hread⟩ | ⟨hblank, err, hread⟩
    · rw [treesRead_cons_of_blank hblank] at h
      obtain ⟨line', hmem, hline'⟩ := ih h
      exact ⟨line', List.mem_cons_of_mem _ hmem, hline'⟩
    · rw [treesRead_cons_of_ok hblank hread] at h
      rcases List.mem_cons.1 h with rfl | h
      · exact ⟨line, List.mem_cons_self, hblank, hread⟩
      · obtain ⟨line', hmem, hline'⟩ := ih h
        exact ⟨line', List.mem_cons_of_mem _ hmem, hline'⟩
    · rw [treesRead_cons_of_error hblank hread] at h
      cases h

/-! ## The first line that is rejected -/

/-- The reader rejects the line behind `before`, with `error`, and none of the lines before it. -/
structure FirstRejected (reader : Reader) (lines before : List String) (error : ReadError) :
    Prop where
  accepts : Accepts reader before
  exists_line : ∃ line after, lines = before ++ line :: after ∧ Text.isBlank line = false ∧
    (reader.read line).value = .error error

section
variable {reader : Reader} {lineno count : Nat} {written : ByteArray} {refusal : Refusal}
  {events : Array Event} {lines before : List String} {error : ReadError}

theorem accepts_or_firstRejected (reader : Reader) (lines : List String) :
    Accepts reader lines ∨ ∃ before error, FirstRejected reader lines before error := by
  induction lines with
  | nil => exact .inl fun _ h => absurd h List.not_mem_nil
  | cons line lines ih =>
    have skip (hline : ∀ lines, Accepts reader (line :: lines) ↔ Accepts reader lines) :
        Accepts reader (line :: lines) ∨
          ∃ before error, FirstRejected reader (line :: lines) before error := by
      rcases ih with h | ⟨before, error, hbefore, line', after, rfl, hrejected⟩
      · exact .inl ((hline _).2 h)
      · exact .inr ⟨line :: before, error, (hline _).2 hbefore, line', after, rfl, hrejected⟩
    rcases line_cases reader line with hblank | ⟨hblank, e, hread⟩ | ⟨hblank, err, hread⟩
    · exact skip fun _ => accepts_cons_of_blank hblank
    · exact skip fun _ => accepts_cons hread
    · exact .inr ⟨[], err, fun _ h => absurd h List.not_mem_nil, line, lines, rfl, hblank, hread⟩

/-- Lines that are all taken, in front of others. -/
theorem runFrom_append_of_accepts (h : Accepts reader before) (lineno count : Nat)
    (written : ByteArray) (events : Array Event) (lines : List String) :
    ∃ events', runFrom reader lineno count ⟨written, none, refusal⟩ events (before ++ lines) =
      runFrom reader (lineno + before.length) (count + (treesRead reader before).length)
        ⟨written ++ (Text.unlines ((treesRead reader before).map Expr.render)).toUTF8, none,
          refusal⟩ events' lines := by
  refine ⟨(runFrom reader lineno count ⟨written, none, refusal⟩ events before).events, ?_⟩
  rw [runFrom_append_of_ok (result_runFrom_eq_ok_iff.2 ⟨h, rfl⟩), sink_runFrom]

/-- Blank lines in front of others. -/
theorem runFrom_append_of_blank {sink : Sink} (h : ∀ line ∈ before, Text.isBlank line = true)
    (lineno : Nat) (lines : List String) :
    runFrom reader lineno count sink events (before ++ lines) =
      runFrom reader (lineno + before.length) count sink events lines := by
  have hblank : runFrom reader lineno count sink events before = ⟨.ok count, sink, events⟩ :=
    runFrom_of_blank h lineno
  rw [runFrom_append_of_ok (congrArg Report.result hblank), hblank]

/-- A run whose input has no line that is rejected. -/
theorem run_ends_of_accepts {input : String} (h : Accepts reader (Text.lines input)) :
    (run reader input {}).result = .ok (treesRead reader (Text.lines input)).length ∧
      (run reader input {}).sink.written = (rows reader (Text.lines input)).toUTF8 := by
  refine ⟨result_run_eq_ok_iff.2 ⟨h, rfl⟩, ?_⟩
  rw [written_run, output, treesRead_of_accepts h, rows]

/-- A run whose input has a line that is rejected. -/
theorem FirstRejected.run_ends {input : String}
    (h : FirstRejected reader (Text.lines input) before error) :
    (run reader input {}).result = .error (.parse (before.length + 1) error) ∧
      (run reader input {}).sink.written = (rows reader before).toUTF8 := by
  obtain ⟨hbefore, line, after, hlines, hblank, hread⟩ := h
  obtain ⟨events', heq⟩ :=
    runFrom_append_of_accepts hbefore 1 0 .empty #[] (line :: after)
  rw [run, hlines, heq, runFrom_cons_of_error hblank hread, rows, ← treesRead_of_accepts hbefore,
    ByteArray.empty_append, Nat.add_comm 1]
  exact ⟨rfl, rfl⟩

end

end LineFilter

end Sexp
