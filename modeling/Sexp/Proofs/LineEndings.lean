import Sexp.Proofs.FilterRun

/-!
# Line endings

A carriage return in front of a line feed is part of the line ending, and any other is an ordinary
character. So in a text where no line feed has one, any of the line feeds can get one: the lines stay
the same, and with them all of what a run of the line filter does. A second one in front of the same
line feed would end up in the line.

* `Text.withReturns`: a text with carriage returns in front of some of its line feeds.
* `Text.lines_withReturns`: its lines.
* `LineFilter.run_withReturns`: a run on it.
-/

namespace Sexp

namespace Text

/-! ## Carriage returns in front of line feeds -/

/-- The characters `cs`, the first of which is at offset `i`, with a carriage return in front of
every line feed whose offset is chosen. -/
def addReturns (chosen : Nat → Bool) (i : Nat) : List Char → List Char
  | [] => []
  | c :: cs =>
    if c = '\n' ∧ chosen i = true then '\r' :: '\n' :: addReturns chosen (i + 1) cs
    else c :: addReturns chosen (i + 1) cs

/-- A text with a carriage return in front of every line feed whose offset is chosen. -/
def withReturns (chosen : Nat → Bool) (text : String) : String :=
  String.ofList (addReturns chosen 0 text.toList)

/-- A line feed that has no carriage return in front of it ends the same line with one. -/
theorem linesFrom_return {recent : List Char} (h : recent.head? ≠ some '\r') (cs : List Char) :
    linesFrom recent ('\r' :: '\n' :: cs) = linesFrom recent ('\n' :: cs) := by
  have hrecent : dropReturn recent = recent := dropReturn_eq_self_iff.2 h
  have hreturn : dropReturn ('\r' :: recent) = recent := rfl
  simp only [linesFrom, Char.reduceBEq, Bool.false_eq_true, if_false, if_true, hrecent, hreturn]

/-- The lines of `cs` behind `recent`, where no line feed of both has a carriage return. -/
theorem linesFrom_addReturns (chosen : Nat → Bool) (i : Nat) {recent cs : List Char}
    (h : ¬ ['\r', '\n'] <:+: recent.reverse ++ cs) :
    linesFrom recent (addReturns chosen i cs) = linesFrom recent cs := by
  induction cs generalizing i recent with
  | nil => rfl
  | cons c cs ih =>
    have hbehind : ¬ ['\r', '\n'] <:+: (c :: recent).reverse ++ cs := by
      rwa [List.reverse_cons, List.append_assoc, List.singleton_append]
    have hcs : ¬ ['\r', '\n'] <:+: ([] : List Char).reverse ++ cs := by
      intro hreturn
      exact h (hreturn.trans ⟨recent.reverse ++ [c], [], by simp⟩)
    by_cases hc : c = '\n'
    · subst hc
      have hline : linesFrom recent ('\n' :: addReturns chosen (i + 1) cs) =
          linesFrom recent ('\n' :: cs) := by
        simp only [linesFrom, beq_self_eq_true, if_true, ih (i + 1) hcs]
      have hrecent : recent.head? ≠ some '\r' := by
        intro hhead
        obtain ⟨rest, rfl⟩ := List.head?_eq_some_iff.1 hhead
        exact h ⟨rest.reverse, cs, by simp⟩
      rw [addReturns]
      split
      · rw [linesFrom_return hrecent, hline]
      · exact hline
    · rw [addReturns, if_neg fun hchosen => hc hchosen.1]
      simp only [linesFrom, beq_iff_eq, hc, if_false, ih (i + 1) hbehind]

theorem lines_withReturns {text : String} (h : ¬ ['\r', '\n'] <:+: text.toList)
    (chosen : Nat → Bool) : lines (withReturns chosen text) = lines text := by
  rw [lines_eq_linesFrom, lines_eq_linesFrom, withReturns, String.toList_ofList,
    linesFrom_addReturns chosen 0 h]

end Text

namespace LineFilter

/-- Carriage returns in front of any of the line feeds change nothing about a run, if no line feed
has one already: it leaves the same in the sink, returns the same count or fails with the same
error, and reports the same on the way. -/
theorem run_withReturns {input : String} (h : ¬ ['\r', '\n'] <:+: input.toList)
    (chosen : Nat → Bool) (reader : Reader) (sink : Sink) :
    run reader (Text.withReturns chosen input) sink = run reader input sink := by
  rw [run, run, Text.lines_withReturns h]

/-- The carriage return inside the first line is part of an atom, and only the line feed behind the
blank line gets one. -/
theorem run_withReturns_second :
    ¬ ['\r', '\n'] <:+: "(a\rb)\n\n(c".toList ∧
      run .strict "(a\rb)\n\r\n(c" { room? := some 5 } =
        run .strict "(a\rb)\n\n(c" { room? := some 5 } := by
  have hchars : "(a\rb)\n\n(c".toList =
      ['(', 'a', '\r', 'b', ')', '\n', '\n', '(', 'c'] := rfl
  have hplain : ¬ ['\r', '\n'] <:+: "(a\rb)\n\n(c".toList := by
    rw [hchars]
    decide
  have htext : Text.withReturns (fun i => i == 6) "(a\rb)\n\n(c" = "(a\rb)\n\r\n(c" := by cbv
  refine ⟨hplain, ?_⟩
  have hrun := run_withReturns hplain (fun i => i == 6) .strict { room? := some 5 }
  rwa [htext] at hrun

end LineFilter

end Sexp
