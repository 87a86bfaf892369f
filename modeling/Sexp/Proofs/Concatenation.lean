import Sexp.Proofs.FilterRun

/-!
# Inputs behind one another

A run of the line filter on two inputs, the first of which ends with a whole line, is a run on the
first and then one on the second, with the same sink. Only the numbers of the lines go on.

* `runFrom_add`: a run that begins at a later line, after other expressions.
* `run_consecutive`: a run on two inputs behind one another.
-/

namespace Sexp

/-- The same failure, with `k` more lines in front of the input. -/
def FilterError.addLines (k : Nat) : FilterError → FilterError
  | parse lineno error => parse (lineno + k) error
  | error => error

namespace LineFilter

variable {reader : Reader} {lineno count : Nat} {sink : Sink} {events : Array Event}

/-- A run that begins `k` lines later, after `n` more expressions, leaves the same in the sink. It
returns `n` more, or fails with a line that has a number higher by `k`. -/
theorem runFrom_add (k n : Nat) (events' : Array Event) (lines : List String) :
    (runFrom reader (lineno + k) (n + count) sink events' lines).sink =
        (runFrom reader lineno count sink events lines).sink ∧
      (runFrom reader (lineno + k) (n + count) sink events' lines).result =
        ((runFrom reader lineno count sink events lines).result.map (n + ·)).mapError
          (FilterError.addLines k) := by
  induction lines generalizing lineno count sink events events' with
  | nil => exact ⟨rfl, rfl⟩
  | cons line lines ih =>
    rcases line_cases reader line with hblank | ⟨hblank, e, hread⟩ | ⟨hblank, err, hread⟩
    · rw [runFrom_blank hblank, runFrom_blank hblank, Nat.add_right_comm]
      exact ih events'
    · rcases hwrite : sink.writeTexts (e.pieces .canonical ++ ["\n"]) with ⟨sink', _ | fault⟩
      · rw [runFrom_cons_of_written hblank hread hwrite,
          runFrom_cons_of_written hblank hread hwrite, Nat.add_right_comm lineno,
          Nat.add_assoc n]
        exact ih _
      · rw [runFrom_cons_of_refused hblank hread hwrite,
          runFrom_cons_of_refused hblank hread hwrite]
        exact ⟨rfl, rfl⟩
    · rw [runFrom_cons_of_error hblank hread, runFrom_cons_of_error hblank hread]
      exact ⟨rfl, rfl⟩

/-- Two inputs behind one another are filtered one after the other. If the run on the first fails,
that is all. Otherwise the second is filtered with the sink that is left: both counts are added up,
and a line that is rejected has its number behind those of the first input. -/
theorem run_consecutive {a : String} (h : Text.EndsLine a) (reader : Reader) (b : String)
    (sink : Sink) :
    (∀ error, (run reader a sink).result = .error error →
        (run reader (a ++ b) sink).result = .error error ∧
          (run reader (a ++ b) sink).sink = (run reader a sink).sink) ∧
      ∀ n, (run reader a sink).result = .ok n →
        (run reader (a ++ b) sink).sink = (run reader b (run reader a sink).sink).sink ∧
          (∀ m, (run reader b (run reader a sink).sink).result = .ok m →
            (run reader (a ++ b) sink).result = .ok (n + m)) ∧
          ∀ error, (run reader b (run reader a sink).sink).result = .error error →
            (run reader (a ++ b) sink).result =
              .error (error.addLines (a.toList.count '\n')) := by
  have hlines : run reader (a ++ b) sink =
      runFrom reader 1 0 sink #[] (Text.lines a ++ Text.lines b) := by
    rw [run, Text.lines_append h]
  rw [hlines]
  constructor
  · intro error herror
    rw [runFrom_append_of_error herror]
    exact ⟨herror, rfl⟩
  · intro n hn
    rw [runFrom_append_of_ok hn, Text.length_lines h]
    obtain ⟨hsink, hresult⟩ :
        (runFrom reader (1 + a.toList.count '\n') (n + 0) (run reader a sink).sink
            (run reader a sink).events (Text.lines b)).sink =
          (run reader b (run reader a sink).sink).sink ∧ _ :=
      runFrom_add (a.toList.count '\n') n (run reader a sink).events (Text.lines b)
    refine ⟨hsink, ?_, ?_⟩
    · intro m hm
      rw [run] at hm
      rw [hm] at hresult
      exact hresult
    · intro error herror
      rw [run] at herror
      rw [herror] at hresult
      exact hresult

/-- Two lines stand in the first input, and the second line of the other one is rejected. -/
theorem run_consecutive_rejected :
    Text.EndsLine "(é)\n\n" ∧
      (run .strict ("(é)\n\n" ++ "\n(b\n") {}).result = .error (.parse 4 (.unclosedList 0)) := by
  have hends : Text.EndsLine "(é)\n\n" := .inr ⟨"(é)\n", rfl⟩
  have hlines : Text.lines "(é)\n\n" = ["(é)", ""] := by cbv
  have hread : (Reader.strict.read "(é)").value = .ok (.list [.atom "é"]) := by cbv
  have hfirst : (run .strict "(é)\n\n" {}).result = .ok 1 := by
    rw [result_run_eq_ok_iff, hlines]
    refine ⟨(accepts_cons hread).2 ((accepts_cons_of_blank rfl).2 ?_), by cbv⟩
    intro line hline
    exact absurd hline List.not_mem_nil
  have hsecond : ∀ sink, (run .strict "\n(b\n" sink).result =
      .error (.parse 2 (.unclosedList 0)) := by
    intro sink
    cbv
  exact ⟨hends, ((run_consecutive hends .strict "\n(b\n" {}).2 1 hfirst).2.2 _ (hsecond _)⟩

end LineFilter

end Sexp
