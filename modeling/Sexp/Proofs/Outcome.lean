import Sexp.Program.Run
import Sexp.Proofs.Truncation

/-!
# How the program ends

The exit code, the output and the error lines of a run of the program, for any bytes on its input
and any values of its two variables, whether the output is taken in full or every write fails. How
much is logged has no part in it.

* `Text.fromUTF8?_eq_some_iff`: decoding is the inverse of encoding.
* `Program.run_eq`: a run of the program is a run of the line filter.
* `Program.endsAsRead`, `Program.endsUnwritten`: the ends of a run whose output is taken in full,
  and of one whose writes all fail.
* `Program.run_classified`: both of them, with the reader that the variable chooses.
-/

namespace Sexp

/-- Decoding is the inverse of encoding. -/
theorem Text.fromUTF8?_eq_some_iff {bytes : ByteArray} {text : String} :
    String.fromUTF8? bytes = some text ↔ text.toUTF8 = bytes := by
  unfold String.fromUTF8?
  constructor
  · intro h
    split at h
    · cases h
      rfl
    · cases h
  · rintro rfl
    rw [String.toUTF8_eq_toByteArray, dif_pos text.isValidUTF8]
    rfl

theorem Text.fromUTF8?_eq_none_iff {bytes : ByteArray} :
    String.fromUTF8? bytes = none ↔ ∀ text : String, text.toUTF8 ≠ bytes := by
  rw [Option.eq_none_iff_forall_ne_some]
  exact forall_congr' fun text => not_congr fromUTF8?_eq_some_iff

namespace Program

open LineFilter (Accepts FirstFilled FirstRejected rows)

/-! ## The reader -/

/-- The values of the variable that choose the strict reader. -/
def AsksStrict (strict : Option ByteArray) : Prop :=
  strict = some "1".toUTF8 ∨ strict = some "true".toUTF8

/-- The reader of a run of the program. -/
def readerFor (strict : Option ByteArray) : Reader :=
  (Settings.ofVars none (strict.bind String.fromUTF8?)).reader

theorem bind_fromUTF8?_eq_some_iff {value : Option ByteArray} {text : String} :
    value.bind String.fromUTF8? = some text ↔ value = some text.toUTF8 := by
  rw [Option.bind_eq_some_iff]
  simp only [Text.fromUTF8?_eq_some_iff]
  exact ⟨fun ⟨_, h, heq⟩ => by rw [h, heq], fun h => ⟨_, h, rfl⟩⟩

theorem readerFor_of_asksStrict {strict : Option ByteArray} (h : AsksStrict strict) :
    readerFor strict = .strict := by
  rw [AsksStrict, ← bind_fromUTF8?_eq_some_iff, ← bind_fromUTF8?_eq_some_iff] at h
  simp [readerFor, Settings.ofVars, Settings.reader, h]

theorem readerFor_of_not_asksStrict {strict : Option ByteArray} (h : ¬ AsksStrict strict) :
    readerFor strict = .lenient := by
  rw [AsksStrict, ← bind_fromUTF8?_eq_some_iff, ← bind_fromUTF8?_eq_some_iff] at h
  simp [readerFor, Settings.ofVars, Settings.reader, h]

/-! ## The run of the line filter -/

/-- The outcome for a run of the line filter, with a log. -/
def outcomeOf (report : LineFilter.Report) (log : List String) : Outcome :=
  match report.result with
  | .ok _ => ⟨0, report.sink.written, [], log⟩
  | .error error => ⟨error.exitCode, report.sink.written, [error.message], log⟩

theorem outcomeOf_with_log (report : LineFilter.Report) (log log' : List String) :
    { outcomeOf report log with log := log' } = outcomeOf report log' := by
  unfold outcomeOf
  split <;> rfl

/-- A run of the program is a run of the line filter; what is logged has its own place. -/
theorem run_eq (verbose strict : Option ByteArray) (input : ByteArray) (stdout : Sink) :
    run verbose strict input stdout =
      outcomeOf (filterBytes (readerFor strict) input stdout)
        (run verbose strict input stdout).log := by
  have hreader : (Settings.ofVars (verbose.bind String.fromUTF8?)
      (strict.bind String.fromUTF8?)).reader = readerFor strict := rfl
  cases hresult : (filterBytes (readerFor strict) input stdout).result with
  | ok count => simp only [run, outcomeOf, hreader, hresult]
  | error error => simp only [run, outcomeOf, hreader, hresult]

theorem filterBytes_of_notText {input : ByteArray} (h : ∀ text : String, text.toUTF8 ≠ input)
    (reader : Reader) (stdout : Sink) :
    filterBytes reader input stdout = ⟨.error (.input .notUtf8), stdout, #[]⟩ := by
  rw [filterBytes, Text.fromUTF8?_eq_none_iff.2 h]

/-- A run whose input is not text. -/
theorem eq_of_notText {reader : Reader} {input : ByteArray} {stdout : Sink} {outcome : Outcome}
    (h : outcome = outcomeOf (filterBytes reader input stdout) outcome.log)
    (hinput : ∀ text : String, text.toUTF8 ≠ input) :
    outcome = ⟨1, stdout.written, ["unable to read input: stream did not contain valid UTF-8"],
      outcome.log⟩ := by
  rw [filterBytes_of_notText hinput] at h
  exact h

theorem filterBytes_toUTF8 (reader : Reader) (text : String) (stdout : Sink) :
    filterBytes reader text.toUTF8 stdout = LineFilter.run reader text stdout := by
  rw [filterBytes, Text.fromUTF8?_eq_some_iff.2 rfl]

/-! ## Output that is taken in full -/

/-- The error line for a line that is rejected. -/
def rejection (lineno : Nat) (error : ReadError) : String :=
  toString lineno ++ ":" ++ (toString error.offset ++ ": sexpr error: " ++ error.reason)

/-- How a run ends that reads with `reader` and whose output is taken in full. -/
structure EndsAsRead (reader : Reader) (input : ByteArray) (outcome : Outcome) : Prop where
  /-- Nothing of an input that is not UTF-8 throughout is read. -/
  notText : (∀ text : String, text.toUTF8 ≠ input) →
    outcome = ⟨1, .empty, ["unable to read input: stream did not contain valid UTF-8"],
      outcome.log⟩
  /-- The lines in front of the first that is rejected are written, and this one is named. -/
  rejected : ∀ (text : String) (before : List String) (error : ReadError),
    text.toUTF8 = input → FirstRejected reader (Text.lines text) before error →
      outcome = ⟨2, (rows reader before).toUTF8, [rejection (before.length + 1) error],
        outcome.log⟩
  accepted : ∀ text : String, text.toUTF8 = input → Accepts reader (Text.lines text) →
    outcome = ⟨0, (rows reader (Text.lines text)).toUTF8, [], outcome.log⟩
  exitCode_eq_two_iff : outcome.exitCode = 2 ↔
    ∃ text : String, text.toUTF8 = input ∧ ∃ line ∈ Text.lines text,
      Text.isBlank line = false ∧ ∃ error, (reader.read line).value = .error error

/-- An input is not text, or its lines are all taken, or one of them is the first to be rejected. -/
theorem input_cases (reader : Reader) (input : ByteArray) :
    (∀ text : String, text.toUTF8 ≠ input) ∨
      ∃ text : String, text.toUTF8 = input ∧
        (Accepts reader (Text.lines text) ∨
          ∃ before error, FirstRejected reader (Text.lines text) before error) := by
  by_cases h : ∃ text : String, text.toUTF8 = input
  · obtain ⟨text, rfl⟩ := h
    exact .inr ⟨text, rfl, LineFilter.accepts_or_firstRejected reader _⟩
  · exact .inl fun text htext => h ⟨text, htext⟩

section
variable {reader : Reader} {input : ByteArray} {outcome : Outcome}

theorem eq_of_firstRejected {text : String} {before : List String} {error : ReadError}
    (h : outcome = outcomeOf (filterBytes reader text.toUTF8 {}) outcome.log)
    (hfirst : FirstRejected reader (Text.lines text) before error) :
    outcome = ⟨2, (rows reader before).toUTF8, [rejection (before.length + 1) error],
      outcome.log⟩ := by
  obtain ⟨hresult, hwritten⟩ := hfirst.run_ends
  rw [filterBytes_toUTF8, outcomeOf, hresult, hwritten] at h
  exact h

theorem eq_of_accepts {text : String}
    (h : outcome = outcomeOf (filterBytes reader text.toUTF8 {}) outcome.log)
    (haccepts : Accepts reader (Text.lines text)) :
    outcome = ⟨0, (rows reader (Text.lines text)).toUTF8, [], outcome.log⟩ := by
  obtain ⟨hresult, hwritten⟩ := LineFilter.run_ends_of_accepts haccepts
  rw [filterBytes_toUTF8, outcomeOf, hresult, hwritten] at h
  exact h

theorem endsAsRead (h : outcome = outcomeOf (filterBytes reader input {}) outcome.log) :
    EndsAsRead reader input outcome := by
  refine ⟨eq_of_notText h, ?_, ?_, fun hcode => ?_, ?_⟩
  · rintro text before error rfl hfirst
    exact eq_of_firstRejected h hfirst
  · rintro text rfl haccepts
    exact eq_of_accepts h haccepts
  · rcases input_cases reader input with hinput | ⟨text, rfl, haccepts | ⟨before, error, hfirst⟩⟩
    · rw [eq_of_notText h hinput] at hcode
      cases hcode
    · rw [eq_of_accepts h haccepts] at hcode
      cases hcode
    · obtain ⟨-, line, after, hlines, hblank, hread⟩ := hfirst
      exact ⟨text, rfl, line, by simp [hlines], hblank, error, hread⟩
  · rintro ⟨text, rfl, line, hline, hblank, error, hread⟩
    rcases LineFilter.accepts_or_firstRejected reader (Text.lines text) with
      haccepts | ⟨before, error, hfirst⟩
    · exact absurd haccepts (LineFilter.not_accepts_of_mem hline hblank hread)
    · rw [eq_of_firstRejected h hfirst]

end

/-! ## Output of which nothing is taken -/

/-- How a run ends that reads with `reader` and whose writes all end with `fault`. -/
structure EndsUnwritten (reader : Reader) (input : ByteArray) (fault : StreamFault)
    (outcome : Outcome) : Prop where
  notText : (∀ text : String, text.toUTF8 ≠ input) →
    outcome = ⟨1, .empty, ["unable to read input: stream did not contain valid UTF-8"],
      outcome.log⟩
  blank : ∀ text : String, text.toUTF8 = input →
    (∀ line ∈ Text.lines text, Text.isBlank line = true) → outcome = ⟨0, .empty, [], outcome.log⟩
  /-- The first line that is not blank decides. -/
  accepted : ∀ (text : String) (before : List String) (line : String) (e : Expr),
    text.toUTF8 = input → FirstFilled (Text.lines text) before line →
      (reader.read line).value = .ok e →
        outcome = ⟨3, .empty, ["unable to write output: " ++ fault.message], outcome.log⟩
  rejected : ∀ (text : String) (before : List String) (line : String) (error : ReadError),
    text.toUTF8 = input → FirstFilled (Text.lines text) before line →
      (reader.read line).value = .error error →
        outcome = ⟨2, .empty, [rejection (before.length + 1) error], outcome.log⟩
  exitCode_eq_three_iff : outcome.exitCode = 3 ↔
    ∃ (text : String) (before : List String) (line : String) (e : Expr), text.toUTF8 = input ∧
      FirstFilled (Text.lines text) before line ∧ (reader.read line).value = .ok e

section
variable {reader : Reader} {input : ByteArray} {text line : String} {before : List String}
  {refusal : Refusal} {outcome : Outcome}

theorem eq_of_blank {stdout : Sink}
    (h : outcome = outcomeOf (filterBytes reader text.toUTF8 stdout) outcome.log)
    (hblank : ∀ line ∈ Text.lines text, Text.isBlank line = true) :
    outcome = ⟨0, stdout.written, [], outcome.log⟩ := by
  obtain ⟨hresult, hsink⟩ := LineFilter.run_of_blank hblank reader stdout
  rw [filterBytes_toUTF8, outcomeOf, hresult, hsink] at h
  exact h

theorem eq_of_firstFilled_ok {e : Expr}
    (h : outcome =
      outcomeOf (filterBytes reader text.toUTF8 { room? := some 0, refusal }) outcome.log)
    (hfirst : FirstFilled (Text.lines text) before line)
    (hread : (reader.read line).value = .ok e) :
    outcome = ⟨3, .empty, ["unable to write output: " ++ refusal.fault.message],
      outcome.log⟩ := by
  obtain ⟨hresult, hwritten⟩ := hfirst.run_of_ok hread refusal
  rw [filterBytes_toUTF8, outcomeOf, hresult, hwritten] at h
  exact h

theorem eq_of_firstFilled_error {stdout : Sink} {error : ReadError}
    (h : outcome = outcomeOf (filterBytes reader text.toUTF8 stdout) outcome.log)
    (hfirst : FirstFilled (Text.lines text) before line)
    (hread : (reader.read line).value = .error error) :
    outcome = ⟨2, stdout.written, [rejection (before.length + 1) error], outcome.log⟩ := by
  obtain ⟨hresult, hsink⟩ := hfirst.run_of_error hread stdout
  rw [filterBytes_toUTF8, outcomeOf, hresult, hsink] at h
  exact h

theorem endsUnwritten
    (h : outcome =
      outcomeOf (filterBytes reader input { room? := some 0, refusal }) outcome.log) :
    EndsUnwritten reader input refusal.fault outcome := by
  refine ⟨eq_of_notText h, ?_, ?_, ?_, fun hcode => ?_, ?_⟩
  · rintro text rfl hblank
    exact eq_of_blank h hblank
  · rintro text before line e rfl hfirst hread
    exact eq_of_firstFilled_ok h hfirst hread
  · rintro text before line error rfl hfirst hread
    exact eq_of_firstFilled_error h hfirst hread
  · rcases input_cases reader input with hinput | ⟨text, rfl, -⟩
    · rw [eq_of_notText h hinput] at hcode
      cases hcode
    · rcases LineFilter.blank_or_firstFilled (Text.lines text) with hblank | ⟨before, line, hfirst⟩
      · rw [eq_of_blank h hblank] at hcode
        cases hcode
      · cases hread : (reader.read line).value with
        | ok e => exact ⟨text, before, line, e, rfl, hfirst, hread⟩
        | error error =>
          rw [eq_of_firstFilled_error h hfirst hread] at hcode
          cases hcode
  · rintro ⟨text, before, line, e, rfl, hfirst, hread⟩
    rw [eq_of_firstFilled_ok h hfirst hread]

end

/-! ## Every run -/

theorem exitCode_ne_two_of_not_strict {reader : Reader} (h : reader.isStrict = false)
    (input : ByteArray) (stdout : Sink) (log : List String) :
    (outcomeOf (filterBytes reader input stdout) log).exitCode ≠ 2 := by
  have hparse : ∀ lineno error,
      (filterBytes reader input stdout).result ≠ .error (.parse lineno error) := by
    intro lineno error
    rcases input_cases reader input with hinput | ⟨text, rfl, -⟩
    · rw [filterBytes_of_notText hinput]
      exact fun heq => by cases heq
    · rw [filterBytes_toUTF8]
      exact LineFilter.result_runFrom_ne_parse h _ _ _ _ _
  unfold outcomeOf
  split
  · exact fun heq => by cases heq
  · rename_i error hresult
    cases error with
    | parse lineno error => exact absurd hresult (hparse lineno error)
    | input | output => exact fun heq => by cases heq

/-- How every run of the program ends. Only the values `1` and `true` of the variable choose the
strict reader. The outcome for an output that is taken in full, and for one whose writes all fail,
is the one described for this reader; without the strict reader the exit code is never 2; and the
other variable changes nothing but the log. -/
theorem run_classified (verbose strict : Option ByteArray) (input : ByteArray) (refusal : Refusal) :
    ∃ reader : Reader, (AsksStrict strict → reader = .strict) ∧
      (¬ AsksStrict strict → reader = .lenient ∧
        ∀ stdout, (run verbose strict input stdout).exitCode ≠ 2) ∧
      EndsAsRead reader input (run verbose strict input {}) ∧
      EndsUnwritten reader input refusal.fault
        (run verbose strict input { room? := some 0, refusal }) ∧
      ∀ verbose' stdout, run verbose' strict input stdout =
        { run verbose strict input stdout with log := (run verbose' strict input stdout).log } := by
  refine ⟨readerFor strict, readerFor_of_asksStrict, fun h => ?_, ?_, ?_, fun verbose' stdout => ?_⟩
  · have hreader := readerFor_of_not_asksStrict h
    refine ⟨hreader, fun stdout => ?_⟩
    rw [run_eq, hreader]
    exact exitCode_ne_two_of_not_strict rfl input stdout _
  · exact endsAsRead (run_eq verbose strict input {})
  · exact endsUnwritten (run_eq verbose strict input { room? := some 0, refusal })
  · have hlog := outcomeOf_with_log (filterBytes (readerFor strict) input stdout)
      (run verbose strict input stdout).log (run verbose' strict input stdout).log
    rw [← run_eq] at hlog
    exact (run_eq verbose' strict input stdout).trans hlog.symm

/-- The line behind a rejected one is not read any more. -/
theorem run_classified_rejected :
    ∃ log, run none (some "1".toUTF8) "(a)\n)\n(b)".toUTF8 {} =
      ⟨2, "(a )\n".toUTF8, ["2:0: sexpr error: unexpected ')'"], log⟩ := by
  obtain ⟨reader, hstrict, -, hends, -⟩ :=
    run_classified none (some "1".toUTF8) "(a)\n)\n(b)".toUTF8 .takeNothing
  obtain rfl := hstrict (.inl rfl)
  have haccepts : Accepts .strict ["(a)"] := by
    intro line hline _
    rw [List.mem_singleton.1 hline]
    exact ⟨.list [.atom "a"], by cbv⟩
  have hfirst : FirstRejected .strict (Text.lines "(a)\n)\n(b)") ["(a)"] (.unexpectedClose 0) :=
    ⟨haccepts, ")", ["(b)"], by cbv, by cbv, by cbv⟩
  have hrows : rows .strict ["(a)"] = "(a )\n" := by decide +kernel
  have hrun := hends.rejected _ _ _ rfl hfirst
  rw [hrows] at hrun
  exact ⟨_, hrun⟩

end Program

end Sexp
