import Sexp.Proofs.Agreement

/-!
# The first token that cannot be right

A row of tokens is viable when it begins the flattening of some expression that is not too deep. The
strict parser gives up at the first token that makes the row unviable, and a row that stays viable
to its end is accepted unless it ends inside a list; then the innermost open list is named.

* `viable_iff_run`: the viable rows are those that the parser takes in.
* `firstUnviable_iff_raisesAt`: it fails at the first token that makes a row unviable.
* `Unfolds.step`, `unfolds_run`: every open list knows the offset of its parenthesis.
* `lastUnclosed_of_flatMap`: the parenthesis in front of complete expressions is the last one that
  is never closed.
* `parse_of_firstUnviable`, `parse_of_viable`: the verdict on the two kinds of rows.
* `strict_parse_earliest`: both of them together.
-/

namespace Sexp

/-- Some expression that is not too deep begins with these tokens. -/
def Viable (limit : Nat) (ts : List Token) : Prop :=
  ∃ e : Expr, e.depth ≤ limit ∧ ts <+: e.tokens

/-- The tokens are one expression. -/
def IsComplete (ts : List Token) : Prop :=
  ∃ e : Expr, ts = e.tokens

/-- With token `i`, and no sooner, the row becomes unviable. -/
structure FirstUnviable (limit : Nat) (ts : List Token) (i : Nat) : Prop where
  unviable : ¬ Viable limit (ts.take (i + 1))
  before : ∀ j < i, Viable limit (ts.take (j + 1))

/-! ## Counting parentheses -/

namespace Spine

theorem count_step {s r : Spine} {t : Token} (h : s.step t = some r) :
    r.opened.length + [t].count .rparen = s.opened.length + [t].count .lparen := by
  unfold step at h
  split at h
  · cases h
    rfl
  · cases h
  · cases h
    rw [length_opened_add]
    rfl
  · cases h
    rw [length_opened_add]
    rfl

/-- Every list that has been opened is open or has been closed. -/
theorem count_run {s r : Spine} {ts : List Token} (h : s.run ts = some r) :
    r.opened.length + ts.count .rparen = s.opened.length + ts.count .lparen := by
  induction ts generalizing s with
  | nil =>
    cases h
    rfl
  | cons t ts ih =>
    obtain ⟨m, hm, hr⟩ := run_cons_eq_some h
    have hstep := count_step hm
    have hrest := ih hr
    rw [← List.singleton_append, List.count_append, List.count_append]
    omega

/-- No beginning of a row that a spine takes in closes more lists than it opens. -/
theorem count_take_le {s : Spine} {ts : List Token} (h : run {} ts = some s) (n : Nat) :
    (ts.take n).count .rparen ≤ (ts.take n).count .lparen := by
  rw [← List.take_append_drop n ts, run_append] at h
  obtain ⟨r, hr, -⟩ := Option.bind_eq_some_iff.1 h
  have hcount := count_run hr
  rw [List.length_nil] at hcount
  omega

end Spine

theorem count_flatMap_tokens (es : List Expr) :
    (es.flatMap Expr.tokens).count .rparen = (es.flatMap Expr.tokens).count .lparen := by
  have h := Spine.count_run (Spine.run_tokens_self ⟨es, []⟩)
  simpa using h

/-- In front of complete expressions, a parenthesis is never closed, and it is the last one of
these. -/
theorem lastUnclosed_of_flatMap (pre : List Token) (es : List Expr) :
    LastUnclosed .lparen .rparen (pre ++ .lparen :: es.flatMap Expr.tokens) pre.length := by
  have hrun : Spine.run {} (es.flatMap Expr.tokens) = some ⟨es, []⟩ :=
    Spine.run_eq_some_iff.2 (Spine.tokens_complete es)
  exact lastUnclosed_of_balanced (by simp) (Spine.count_take_le hrun) (count_flatMap_tokens es)

namespace Strict

variable {limit : Nat} {ts : List Located}

/-! ## Viable rows -/

theorem viable_nil (limit : Nat) : Viable limit [] :=
  ⟨.atom "", by simp [Expr.depth_eq_height, Expr.height], List.nil_prefix⟩

/-- The parser takes in a row iff it is viable. -/
theorem viable_iff_run : Viable limit (ts.map Located.token) ↔ ∃ s, run limit ts = .ok s := by
  constructor
  · rintro ⟨e, he, rest, hrest⟩
    have htokens : (ts ++ rest.map (Located.mk · 0)).map Located.token = e.tokens := by
      rw [← hrest, List.map_append, List.map_map]
      simp [Function.comp_def]
    rw [Expr.depth_eq_height] at he
    obtain ⟨r, hr, -⟩ := run_of_tokens htokens he
    exact exists_run_of_append hr
  · rintro ⟨s, hs⟩
    by_cases hopen : 0 < unclosed (ts.map Located.token)
    · obtain ⟨e, he, hheight⟩ := exists_tokens_eq_completed hs hopen
      exact ⟨e, by rwa [Expr.depth_eq_height], by rw [he]; exact List.prefix_append _ _⟩
    · rw [unclosed_of_run hs] at hopen
      have hparse := parse_of_opened_eq_nil hs (List.length_eq_zero_iff.1 (by omega))
      rcases parse_eq_ok_iff.1 hparse with ⟨rfl, -⟩ | ⟨htokens, hheight⟩
      · exact viable_nil limit
      · exact ⟨_, by rwa [Expr.depth_eq_height], [], (List.append_nil _).trans htokens⟩

theorem run_take_succ {i : Nat} {s : State} {tok : Located} (hs : run limit (ts.take i) = .ok s)
    (hi : ts[i]? = some tok) : run limit (ts.take (i + 1)) = s.step limit tok := by
  rw [List.take_add_one, hi]
  exact run_concat hs tok

/-- The parser fails at the first token that makes a row unviable, and nowhere else. -/
theorem firstUnviable_iff_raisesAt {i : Nat} :
    FirstUnviable limit (ts.map Located.token) i ↔ ∃ err, RaisesAt limit ts i err := by
  constructor
  · rintro ⟨hfail, hbefore⟩
    simp only [← List.map_take, viable_iff_run] at hfail hbefore
    obtain ⟨s, hs⟩ : ∃ s, run limit (ts.take i) = .ok s := by
      cases i with
      | zero => exact ⟨_, rfl⟩
      | succ i => exact hbefore i (Nat.lt_succ_self i)
    cases hi : ts[i]? with
    | none =>
      have hlen := List.getElem?_eq_none_iff.1 hi
      rw [List.take_of_length_le (by omega)] at hfail
      rw [List.take_of_length_le hlen] at hs
      exact absurd ⟨s, hs⟩ hfail
    | some tok =>
      rw [run_take_succ hs hi] at hfail
      cases hstep : s.step limit tok with
      | ok r => exact absurd ⟨r, hstep⟩ hfail
      | error err => exact ⟨err, s, tok, hs, hi, hstep⟩
  · rintro ⟨err, s, tok, hs, hi, hstep⟩
    refine ⟨?_, ?_⟩
    · rw [← List.map_take, viable_iff_run, run_take_succ hs hi, hstep]
      rintro ⟨r, hr⟩
      cases hr
    · intro j hj
      rw [← List.map_take, viable_iff_run]
      obtain ⟨rest, hrest⟩ : ts.take (j + 1) <+: ts.take i := List.take_prefix_take_left hj
      rw [← hrest] at hs
      exact exists_run_of_append hs

/-! ## Offsets of open lists -/

/-- The innermost list, if there is one, with one more item. -/
def grow : List Frame → Expr → List Frame
  | [], _ => []
  | frame :: outer, e => { frame with items := frame.items.push e } :: outer

/-- `Unfolds ts frames`: behind every parenthesis whose list is open, at the offset of its frame, the
row holds the items of the frame and nothing else up to the next such parenthesis. -/
inductive Unfolds : List Located → List Frame → Prop
  | outside {ts : List Located} : Unfolds ts []
  | inside {ts us : List Located} {frame : Frame} {outer : List Frame} : Unfolds ts outer →
      us.map Located.token = frame.items.toList.flatMap Expr.tokens →
      Unfolds (ts ++ ⟨.lparen, frame.offset⟩ :: us) (frame :: outer)

theorem Unfolds.grow {us : List Located} {frames : List Frame} {e : Expr} (h : Unfolds ts frames)
    (he : us.map Located.token = e.tokens) : Unfolds (ts ++ us) (grow frames e) := by
  cases h with
  | outside => exact .outside
  | @inside pre items frame outer houter hitems =>
    have hgrown : (items ++ us).map Located.token =
        (frame.items.push e).toList.flatMap Expr.tokens := by
      rw [List.map_append, hitems, he]
      simp
    rw [List.append_assoc, List.cons_append]
    exact @Unfolds.inside pre (items ++ us) { frame with items := frame.items.push e } outer houter
      hgrown

theorem opened_place {s r : State} {offset : Nat} {e : Expr} (h : s.place offset e = .ok r) :
    r.opened = Strict.grow s.opened e := by
  unfold State.place at h
  split at h <;> cases h <;> rfl

theorem Unfolds.step {s r : State} {tok : Located} (h : Unfolds ts s.opened)
    (hr : s.step limit tok = .ok r) : Unfolds (ts ++ [tok]) r.opened := by
  unfold State.step at hr
  split at hr
  · unfold State.descend at hr
    split at hr <;> cases hr
    exact @Unfolds.inside ts [] ⟨_, #[]⟩ _ h rfl
  · unfold State.close at hr
    split at hr
    · cases hr
    · cases h with
      | @inside pre us frame outer houter hitems =>
        rw [opened_place hr, List.append_assoc]
        refine houter.grow ?_
        simp [hitems]
  · rw [opened_place hr]
    exact h.grow (by simp)

theorem unfolds_run {s : State} (h : run limit ts = .ok s) : Unfolds ts s.opened := by
  induction ts using List.reverseRecOn generalizing s with
  | nil =>
    cases h
    exact .outside
  | append_singleton ts tok ih =>
    cases hr : run limit ts with
    | error err =>
      rw [run_append_of_error hr] at h
      cases h
    | ok r =>
      rw [run_concat hr] at h
      exact (ih hr).step h

/-- The frame of the innermost list has the offset of the last parenthesis that is never closed. -/
theorem lastUnclosed_of_run {s : State} {frame : Frame} {outer : List Frame}
    (h : run limit ts = .ok s) (hs : s.opened = frame :: outer) :
    ∃ k, LastUnclosed .lparen .rparen (ts.map Located.token) k ∧
      ts[k]? = some ⟨.lparen, frame.offset⟩ := by
  have hunfolds := unfolds_run h
  rw [hs] at hunfolds
  cases hunfolds with
  | @inside pre us frame outer _ hitems =>
    refine ⟨pre.length, ?_, by simp⟩
    rw [List.map_append, List.map_cons, hitems, ← List.length_map (f := Located.token)]
    exact lastUnclosed_of_flatMap _ _

/-! ## Verdicts -/

theorem isComplete_of_run {s : State} (h : run limit ts = .ok s) :
    IsComplete (ts.map Located.token) ↔ s.opened = [] ∧ s.spine.top ≠ [] := by
  constructor
  · intro hcomplete
    obtain ⟨e, he⟩ := hcomplete
    have hspine := spine_of_run_tokens h he
    refine ⟨opened_spine_eq_nil_iff.1 (by rw [hspine]), ?_⟩
    rw [hspine]
    exact List.cons_ne_nil _ _
  · intro ⟨hopen, htop⟩
    have htokens := (run_eq_ok h).2
    cases hroot : s.root? with
    | none =>
      rw [State.spine, hroot] at htop
      exact absurd rfl htop
    | some root =>
      refine ⟨root, ?_⟩
      rw [← htokens]
      simp [State.spine, Spine.tokens, hroot, hopen]

/-- What the parser says of the first token that makes the row unviable. -/
theorem parse_of_firstUnviable {i : Nat} (h : FirstUnviable limit (ts.map Located.token) i) :
    ∃ tok, ts[i]? = some tok ∧
      (tok.token = .rparen → parse limit ts = .error (.unexpectedClose tok.offset)) ∧
      (tok.token ≠ .rparen → IsComplete ((ts.take i).map Located.token) →
        parse limit ts = .error (.multipleTopLevel tok.offset)) ∧
      (tok.token ≠ .rparen → ¬ IsComplete ((ts.take i).map Located.token) →
        parse limit ts = .error (.tooDeep tok.offset limit) ∧ tok.token = .lparen ∧
          unclosed ((ts.take i).map Located.token) = limit) := by
  obtain ⟨err, hraises⟩ := firstUnviable_iff_raisesAt.1 h
  have hparse := parse_eq_error_iff.2 (.inl ⟨i, hraises⟩)
  obtain ⟨s, tok, hs, hi, hstep⟩ := hraises
  have hrej := (step_eq_error_iff (run_eq_ok hs).1).1 hstep
  refine ⟨tok, hi, ?_⟩
  rw [isComplete_of_run hs, ← opened_spine_eq_nil_iff, unclosed_of_run hs, ← length_opened_spine]
  cases hrej with
  | unexpectedClose hopen => exact ⟨fun _ => hparse, fun h => absurd rfl h, fun h => absurd rfl h⟩
  | multipleTopLevel ht hopen htop =>
    exact ⟨fun h => absurd h ht, fun _ _ => hparse, fun _ h => absurd ⟨hopen, htop⟩ h⟩
  | tooDeep htop hlen =>
    refine ⟨fun h => (by cases h), ?_, fun _ _ => ⟨hparse, rfl, hlen⟩⟩
    intro _ ⟨hopen, hne⟩
    exact absurd (htop hopen) hne

/-- What the parser says of a row that is viable to its end. -/
theorem parse_of_viable (h : Viable limit (ts.map Located.token)) :
    (ts ≠ [] → ¬ IsComplete (ts.map Located.token) →
      ∃ k tok, LastUnclosed .lparen .rparen (ts.map Located.token) k ∧ ts[k]? = some tok ∧
        parse limit ts = .error (.unclosedList tok.offset)) ∧
      (ts = [] ∨ IsComplete (ts.map Located.token) → ∃ e, parse limit ts = .ok e) := by
  obtain ⟨s, hs⟩ := viable_iff_run.1 h
  cases hopened : s.opened with
  | nil =>
    have hok := parse_of_opened_eq_nil hs hopened
    refine ⟨?_, fun _ => ⟨_, hok⟩⟩
    intro hne hcomplete
    rcases parse_eq_ok_iff.1 hok with ⟨hnil, -⟩ | ⟨htokens, -⟩
    · exact absurd hnil hne
    · exact absurd ⟨_, htokens⟩ hcomplete
  | cons frame outer =>
    obtain ⟨k, hlast, hk⟩ := lastUnclosed_of_run hs hopened
    refine ⟨fun _ _ => ⟨k, _, hlast, hk, ?_⟩, ?_⟩
    · exact parse_eq_error_iff.2 (.inr ⟨s, frame, outer, hs, hopened, rfl⟩)
    · intro hdone
      rcases hdone with rfl | hcomplete
      · cases hs
        cases hopened
      · rw [isComplete_of_run hs, hopened] at hcomplete
        exact absurd hcomplete.1 (List.cons_ne_nil _ _)

/-- Unless the row ends inside a list, no token behind it changes the error. -/
theorem parse_append_of_error {err : ReadError} (h : parse limit ts = .error err)
    (hlist : ∀ offset, err ≠ .unclosedList offset) (us : List Located) :
    parse limit (ts ++ us) = .error err := by
  rcases parse_eq_error_iff.1 h with ⟨i, hi⟩ | ⟨s, frame, outer, -, -, rfl⟩
  · rw [parse_eq, run_append_of_error hi.run_eq]
    rfl
  · exact absurd rfl (hlist frame.offset)

end Strict

/-- The strict parser names the first token that makes the row unviable: it closes nothing, begins a
second expression, or opens a list at the limit, and which of them is decided in this order. A row
that is viable to its end is accepted, unless it ends inside a list; then the last parenthesis that
is never closed is named. Every other error stays whatever follows. -/
theorem strict_parse_earliest (limit : Nat) (ts : List Located) :
    ((∃ pre, pre <+: ts.map Located.token ∧ ¬ Viable limit pre) →
        ∃ i, FirstUnviable limit (ts.map Located.token) i) ∧
      (∀ i, FirstUnviable limit (ts.map Located.token) i →
        ∃ tok, ts[i]? = some tok ∧
          (tok.token = .rparen → Strict.parse limit ts = .error (.unexpectedClose tok.offset)) ∧
          (tok.token ≠ .rparen → IsComplete ((ts.take i).map Located.token) →
            Strict.parse limit ts = .error (.multipleTopLevel tok.offset)) ∧
          (tok.token ≠ .rparen → ¬ IsComplete ((ts.take i).map Located.token) →
            Strict.parse limit ts = .error (.tooDeep tok.offset limit) ∧ tok.token = .lparen ∧
              unclosed ((ts.take i).map Located.token) = limit)) ∧
      (Viable limit (ts.map Located.token) →
        (ts ≠ [] → ¬ IsComplete (ts.map Located.token) →
          ∃ k tok, LastUnclosed .lparen .rparen (ts.map Located.token) k ∧ ts[k]? = some tok ∧
            Strict.parse limit ts = .error (.unclosedList tok.offset)) ∧
          (ts = [] ∨ IsComplete (ts.map Located.token) → ∃ e, Strict.parse limit ts = .ok e)) ∧
      (∀ err, Strict.parse limit ts = .error err → (∀ offset, err ≠ .unclosedList offset) →
        ∀ us, Strict.parse limit (ts ++ us) = .error err) := by
  refine ⟨?_, fun i hi => Strict.parse_of_firstUnviable hi, Strict.parse_of_viable,
    fun err herr hlist => Strict.parse_append_of_error herr hlist⟩
  intro ⟨pre, hpre, hunviable⟩
  cases hrun : Strict.run limit ts with
  | error err =>
    obtain ⟨i, hi⟩ := Strict.run_eq_error_iff.1 hrun
    exact ⟨i, Strict.firstUnviable_iff_raisesAt.2 ⟨err, hi⟩⟩
  | ok s =>
    obtain ⟨e, he, hts⟩ := Strict.viable_iff_run.2 ⟨s, hrun⟩
    exact absurd ⟨e, he, hpre.trans hts⟩ hunviable

/-- A second list where no list may be opened any more: it is named as a second expression. -/
theorem strict_parse_earliest_second :
    FirstUnviable 1 [.lparen, .rparen, .lparen] 2 ∧
      Strict.parse 1 [⟨.lparen, 4⟩, ⟨.rparen, 7⟩, ⟨.lparen, 9⟩] = .error (.multipleTopLevel 9) := by
  have hfirst : FirstUnviable 1 ([⟨.lparen, 4⟩, ⟨.rparen, 7⟩, ⟨.lparen, 9⟩].map Located.token) 2 :=
    Strict.firstUnviable_iff_raisesAt.2 ⟨_, _, _, rfl, rfl, rfl⟩
  refine ⟨hfirst, ?_⟩
  obtain ⟨tok, htok, -, hsecond, -⟩ := (strict_parse_earliest 1 _).2.1 2 hfirst
  cases htok
  exact hsecond (by simp) ⟨.list [], rfl⟩

end Sexp
