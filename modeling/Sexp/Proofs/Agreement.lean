import Sexp.Proofs.StrictRun
import Sexp.Proofs.LenientRun

/-!
# Where the two parsers agree

Wherever the strict parser gets far enough, the lenient one returns what it has accepted: at the end
of the tokens, inside lists that they leave open, and in front of a stray closing parenthesis.

* `Strict.parse_eq_unclosedList_iff`, `Strict.parse_eq_unexpectedClose_iff`: where the strict parser
  gives up.
* `lenient_parse_of_strict`, `strict_parse_append_closings`, `strict_parse_take`: the three endings.
* `strict_lenient_agree`: all of them together.
-/

namespace Sexp

namespace Strict

variable {limit : Nat} {ts : List Located}

/-! ## How the strict parser ends -/

theorem parse_eq_error_iff {err : ReadError} :
    parse limit ts = .error err ↔
      (∃ i, RaisesAt limit ts i err) ∨
        ∃ s frame outer, run limit ts = .ok s ∧ s.opened = frame :: outer ∧
          err = .unclosedList frame.offset := by
  rw [← run_eq_error_iff, parse_eq]
  cases run limit ts with
  | error err' => simp [bind, Except.bind]
  | ok s =>
    constructor
    · intro h
      obtain ⟨frame, outer, hopened, herr⟩ := finish_eq_error_iff.1 h
      exact .inr ⟨s, frame, outer, rfl, hopened, herr⟩
    · rintro (h | ⟨_, frame, outer, h, hopened, herr⟩)
      · cases h
      · cases h
        exact finish_eq_error_iff.2 ⟨frame, outer, hopened, herr⟩

/-- The parser ends inside a list iff it fails at no token and some list is left open. -/
theorem parse_eq_unclosedList_iff :
    (∃ offset, parse limit ts = .error (.unclosedList offset)) ↔
      ∃ s, run limit ts = .ok s ∧ 0 < unclosed (ts.map Located.token) := by
  constructor
  · rintro ⟨offset, h⟩
    rcases parse_eq_error_iff.1 h with ⟨i, hi⟩ | ⟨s, frame, outer, hs, hopened, -⟩
    · obtain ⟨_, _, -, -, hrej⟩ := hi.rejects
      cases hrej
    · refine ⟨s, hs, ?_⟩
      rw [unclosed_of_run hs, hopened]
      exact Nat.succ_pos _
  · rintro ⟨s, hs, hpos⟩
    rw [unclosed_of_run hs] at hpos
    obtain ⟨frame, outer, hopened⟩ := List.exists_cons_of_length_pos hpos
    exact ⟨frame.offset, parse_eq_error_iff.2 (.inr ⟨s, frame, outer, hs, hopened, rfl⟩)⟩

theorem parse_eq_unexpectedClose_iff {offset : Nat} :
    parse limit ts = .error (.unexpectedClose offset) ↔
      ∃ i, RaisesAt limit ts i (.unexpectedClose offset) := by
  rw [parse_eq_error_iff]
  simp

/-! ## Closing what the tokens leave open -/

/-- Where a run ends inside lists, closing them completes one expression. -/
theorem exists_tokens_eq_completed {s : State} (h : run limit ts = .ok s)
    (hpos : 0 < unclosed (ts.map Located.token)) :
    ∃ e : Expr, e.tokens = completed (ts.map Located.token) ∧ e.height ≤ limit := by
  obtain ⟨hsound, htokens⟩ := run_eq_ok h
  obtain ⟨es, hes⟩ := s.spine.exists_run_close
  obtain ⟨hheight, hwidth⟩ := Spine.height_width_close hes
  -- an open list is the one expression that has begun
  have hlen : es.length = 1 := by
    have hle := hsound.width
    rw [unclosed_of_run h, ← length_opened_spine] at hpos
    simp only [Spine.width, List.length_nil] at hwidth hle
    omega
  obtain ⟨e, rfl⟩ := List.length_eq_one_iff.1 hlen
  refine ⟨e, ?_, ?_⟩
  · rw [← htokens, ← Spine.flatMap_tokens_eq_completed_iff.2 hes, List.flatMap_singleton]
  · have hle := hsound.height
    simp only [Spine.height, Expr.heightAll, Spine.openHeight] at hheight hle
    omega

theorem map_token_closings {closings : List Located}
    (h : ∀ tok ∈ closings, tok.token = .rparen) :
    closings.map Located.token = List.replicate closings.length .rparen := by
  rw [List.map_eq_replicate_iff]
  exact h

theorem unclosed_append_closings {closings : List Located}
    (h : ∀ tok ∈ closings, tok.token = .rparen) :
    unclosed ((ts ++ closings).map Located.token) =
      unclosed (ts.map Located.token) - closings.length := by
  rw [List.map_append, map_token_closings h, unclosed_append_replicate]

theorem run_append_closings {s : State} (hs : run limit ts = .ok s)
    (hpos : 0 < unclosed (ts.map Located.token)) {closings : List Located}
    (h : ∀ tok ∈ closings, tok.token = .rparen)
    (hlen : closings.length ≤ unclosed (ts.map Located.token)) :
    ∃ r, run limit (ts ++ closings) = .ok r := by
  obtain ⟨e, he, hheight⟩ := exists_tokens_eq_completed hs hpos
  let missing : List Located :=
    List.replicate (unclosed (ts.map Located.token) - closings.length) ⟨.rparen, 0⟩
  have hall : (ts ++ closings ++ missing).map Located.token = e.tokens := by
    rw [List.map_append, List.map_append, map_token_closings h, List.map_replicate,
      List.append_assoc, List.replicate_append_replicate, Nat.add_sub_cancel' hlen, he]
    rfl
  obtain ⟨r, hr, -⟩ := run_of_tokens hall hheight
  exact exists_run_of_append hr

end Strict

/-! ## The three endings -/

/-- What the strict parser accepts, the lenient one returns. -/
theorem lenient_parse_of_strict {limit : Nat} {ts : List Located} {e : Expr}
    (h : Strict.parse limit ts = .ok e) : (Lenient.parse ts).value = e := by
  rcases Strict.parse_eq_ok_iff.1 h with ⟨rfl, rfl⟩ | ⟨hts, -⟩
  · exact Lenient.parse_nil
  · exact Lenient.parse_of_tokens hts

/-- Where the tokens end inside lists, the strict parser accepts them once every list is closed, and
no sooner, as what the lenient parser makes of the tokens alone. -/
theorem strict_parse_append_closings {limit offset : Nat} {ts closings : List Located}
    (h : Strict.parse limit ts = .error (.unclosedList offset))
    (hclosings : ∀ tok ∈ closings, tok.token = .rparen) :
    (closings.length = unclosed (ts.map Located.token) →
        Strict.parse limit (ts ++ closings) = .ok (Lenient.parse ts).value) ∧
      (closings.length < unclosed (ts.map Located.token) →
        ∃ offset', Strict.parse limit (ts ++ closings) = .error (.unclosedList offset')) := by
  obtain ⟨s, hs, hpos⟩ := Strict.parse_eq_unclosedList_iff.1 ⟨offset, h⟩
  constructor
  · intro hlen
    obtain ⟨e, he, hheight⟩ := Strict.exists_tokens_eq_completed hs hpos
    have htokens : (ts ++ closings).map Located.token = e.tokens := by
      rw [List.map_append, Strict.map_token_closings hclosings, hlen, he]
      rfl
    have hvalue : (Lenient.parse ts).value = salvaged [e] := by
      apply Lenient.parse_value
      rw [← (Strict.run_eq_ok hs).2, Spine.beforeStray_tokens, (Strict.run_eq_ok hs).2, ← he,
        List.flatMap_singleton]
    rw [hvalue, salvaged_singleton]
    exact Strict.parse_eq_ok_iff.2 (.inr ⟨htokens, hheight⟩)
  · intro hlen
    obtain ⟨r, hr⟩ := Strict.run_append_closings hs hpos hclosings (Nat.le_of_lt hlen)
    refine Strict.parse_eq_unclosedList_iff.2 ⟨r, hr, ?_⟩
    rw [Strict.unclosed_append_closings hclosings]
    omega

/-- In front of a stray closing parenthesis, the strict parser has accepted what the lenient one
returns. -/
theorem strict_parse_take {limit offset i : Nat} {ts : List Located}
    (h : Strict.RaisesAt limit ts i (.unexpectedClose offset)) :
    Strict.parse limit (ts.take i) = .ok (Lenient.parse ts).value := by
  obtain ⟨s, tok, hsplit, hs, hrej⟩ := h.rejects
  cases hrej with
  | unexpectedClose hopen =>
    have hparse := Strict.parse_of_opened_eq_nil hs (Strict.opened_spine_eq_nil_iff.1 hopen)
    have hbefore : beforeStray ((ts.take i).map Located.token) =
        beforeStray (ts.map Located.token) := by
      rw [hsplit, List.map_append, List.map_cons, ← hsplit, ← (Strict.run_eq_ok hs).2,
        Spine.beforeStray_tokens, Spine.beforeStray_tokens_append, hopen]
      simp [beforeStrayFrom]
    rw [← Lenient.parse_value_congr hbefore, lenient_parse_of_strict hparse]
    exact hparse

/-- The two parsers agree on what the strict one accepts, on what it accepts once every open list is
closed, and on what it has accepted in front of a stray closing parenthesis. -/
theorem strict_lenient_agree (limit : Nat) (ts : List Located) :
    (∀ e, Strict.parse limit ts = .ok e → (Lenient.parse ts).value = e) ∧
      (∀ offset, Strict.parse limit ts = .error (.unclosedList offset) →
        1 ≤ unclosed (ts.map Located.token) ∧
          ∀ closings : List Located, (∀ tok ∈ closings, tok.token = .rparen) →
            (closings.length = unclosed (ts.map Located.token) →
                Strict.parse limit (ts ++ closings) = .ok (Lenient.parse ts).value) ∧
              (closings.length < unclosed (ts.map Located.token) →
                ∃ offset', Strict.parse limit (ts ++ closings) =
                  .error (.unclosedList offset'))) ∧
      (∀ offset, Strict.parse limit ts = .error (.unexpectedClose offset) →
        (∃ i, Strict.RaisesAt limit ts i (.unexpectedClose offset)) ∧
          ∀ i, Strict.RaisesAt limit ts i (.unexpectedClose offset) →
            Strict.parse limit (ts.take i) = .ok (Lenient.parse ts).value) := by
  refine ⟨?_, ?_, ?_⟩
  · intro e h
    exact lenient_parse_of_strict h
  · intro offset h
    obtain ⟨s, -, hpos⟩ := Strict.parse_eq_unclosedList_iff.1 ⟨offset, h⟩
    refine ⟨hpos, ?_⟩
    intro closings hclosings
    exact strict_parse_append_closings h hclosings
  · intro offset h
    refine ⟨Strict.parse_eq_unexpectedClose_iff.1 h, ?_⟩
    intro i hi
    exact strict_parse_take hi

/-- One closing parenthesis is missing, and the lenient parser goes on as if it were there. -/
theorem strict_lenient_agree_open :
    Strict.parse 1 [⟨.lparen, 0⟩, ⟨.text "a", 1⟩] = .error (.unclosedList 0) ∧
      Strict.parse 1 [⟨.lparen, 0⟩, ⟨.text "a", 1⟩, ⟨.rparen, 2⟩] =
        .ok (Lenient.parse [⟨.lparen, 0⟩, ⟨.text "a", 1⟩]).value := by
  have h : Strict.parse 1 [⟨.lparen, 0⟩, ⟨.text "a", 1⟩] = .error (.unclosedList 0) := rfl
  exact ⟨h, (((strict_lenient_agree 1 _).2.1 0 h).2 [⟨.rparen, 2⟩] (by simp)).1 rfl⟩

end Sexp
