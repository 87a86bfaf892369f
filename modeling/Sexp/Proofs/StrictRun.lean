import Sexp.Parse.Strict
import Sexp.Proofs.Spine
import Mathlib.Data.List.Induction

/-!
# Runs of the strict parser

The state of the strict parser is a spine with offsets (`State.spine`), which every step that
succeeds moves as the spine itself moves; the steps that fail are those of `Rejects`, a relation on
spines.

* `step_spine`, `step_eq_error_iff`: the two kinds of steps.
* `Sound.step`, `run_eq_ok`: what holds in every state that the parser reaches.
* `run_eq_error_iff`: a run fails iff it fails at one of its tokens.
* `parse_eq_ok_iff`: the parser accepts the flattenings that are not too high, and no tokens at
  all.
* `parse_of_limit_lt_height`: of a flattening that is too high, the first list that is opened at the
  limit is rejected.
-/

namespace Sexp.Strict

/-- What the parser knows, offsets and room left aside. -/
def State.spine (s : State) : Spine :=
  ⟨s.root?.toList, s.opened.map fun frame => frame.items.toList⟩

@[simp] theorem length_opened_spine (s : State) : s.spine.opened.length = s.opened.length :=
  List.length_map _

@[simp] theorem opened_spine_eq_nil_iff {s : State} : s.spine.opened = [] ↔ s.opened = [] :=
  List.map_eq_nil_iff

/-- The tokens at which a spine cannot go on, with the error for it. -/
inductive Rejects (limit : Nat) (s : Spine) : Located → ReadError → Prop
  | unexpectedClose {offset : Nat} : s.opened = [] →
      Rejects limit s ⟨.rparen, offset⟩ (.unexpectedClose offset)
  | multipleTopLevel {token : Token} {offset : Nat} : token ≠ .rparen → s.opened = [] →
      s.top ≠ [] → Rejects limit s ⟨token, offset⟩ (.multipleTopLevel offset)
  | tooDeep {offset : Nat} : (s.opened = [] → s.top = []) → s.opened.length = limit →
      Rejects limit s ⟨.lparen, offset⟩ (.tooDeep offset limit)

/-- What holds between two tokens: the room is what the open lists leave of the limit, and the spine
holds one expression at most, no higher than the limit. -/
structure Sound (limit : Nat) (s : State) : Prop where
  room : s.opened.length + s.room = limit
  height : s.spine.height ≤ limit
  width : s.spine.width ≤ 1

/-! ## Single steps -/

theorem place_spine {s r : State} {offset : Nat} {e : Expr} (h : s.place offset e = .ok r) :
    r.spine = s.spine.add e := by
  unfold State.place at h
  split at h <;> cases h <;> simp [State.spine, Spine.add]

theorem step_spine {limit : Nat} {s r : State} {tok : Located} (h : s.step limit tok = .ok r) :
    s.spine.step tok.token = some r.spine := by
  unfold State.step at h
  split at h
  · unfold State.descend at h
    split at h <;> cases h
    simp [State.spine, Spine.step]
  · unfold State.close at h
    split at h
    · cases h
    · rw [place_spine h]
      simp [State.spine, Spine.step]
  · rw [place_spine h]
    simp [Spine.step]

theorem place_eq_error_iff {s : State} {offset : Nat} {e : Expr} {err : ReadError} :
    s.place offset e = .error err ↔
      s.opened = [] ∧ s.root?.isSome ∧ err = .multipleTopLevel offset := by
  unfold State.place
  split <;> simp [@eq_comm _ err]

theorem descend_eq_error_iff {limit : Nat} {s : State} {offset : Nat} {err : ReadError} :
    s.descend limit offset = .error err ↔
      (s.opened = [] ∧ s.root?.isSome ∧ err = .multipleTopLevel offset) ∨
        ((s.opened = [] → s.root? = none) ∧ s.room = 0 ∧ err = .tooDeep offset limit) := by
  obtain ⟨root?, opened, room⟩ := s
  cases root? <;> cases opened <;> cases room <;> simp [State.descend, @eq_comm _ err]

theorem close_eq_error_iff {limit : Nat} {s : State} (hs : Sound limit s) {offset : Nat}
    {err : ReadError} :
    s.close offset = .error err ↔ s.opened = [] ∧ err = .unexpectedClose offset := by
  obtain ⟨root?, opened, room⟩ := s
  cases opened with
  | nil => simp [State.close, @eq_comm _ err]
  | cons frame outer =>
    -- the list that ends cannot be a second root
    have hroot : root? = none := by
      have := hs.width
      cases root? with
      | none => rfl
      | some e => simp [State.spine, Spine.width] at this
    subst hroot
    rw [State.close, place_eq_error_iff]
    simp

/-- A step fails at the tokens that the spine rejects. -/
theorem step_eq_error_iff {limit : Nat} {s : State} (hs : Sound limit s) {tok : Located}
    {err : ReadError} : s.step limit tok = .error err ↔ Rejects limit s.spine tok err := by
  obtain ⟨token, offset⟩ := tok
  have htop : s.root?.isSome ↔ s.spine.top ≠ [] := by
    cases h : s.root? <;> simp [State.spine, h]
  have htop' : s.root? = none ↔ s.spine.top = [] := by
    cases h : s.root? <;> simp [State.spine, h]
  have hroom : s.room = 0 ↔ s.spine.opened.length = limit := by
    have := hs.room
    rw [length_opened_spine]
    omega
  cases token with
  | lparen =>
    rw [State.step, descend_eq_error_iff, htop, htop', hroom, ← opened_spine_eq_nil_iff]
    constructor
    · rintro (⟨h1, h2, rfl⟩ | ⟨h1, h2, rfl⟩)
      · exact .multipleTopLevel (by simp) h1 h2
      · exact .tooDeep h1 h2
    · rintro (_ | ⟨-, h1, h2⟩ | ⟨h1, h2⟩)
      · exact .inl ⟨h1, h2, rfl⟩
      · exact .inr ⟨h1, h2, rfl⟩
  | rparen =>
    rw [State.step, close_eq_error_iff hs, ← opened_spine_eq_nil_iff]
    constructor
    · rintro ⟨h1, rfl⟩
      exact .unexpectedClose h1
    · rintro (h1 | ⟨h, -, -⟩)
      · exact ⟨h1, rfl⟩
      · exact absurd rfl h
  | text text =>
    rw [State.step, place_eq_error_iff, htop, ← opened_spine_eq_nil_iff]
    constructor
    · rintro ⟨h1, h2, rfl⟩
      exact .multipleTopLevel (by simp) h1 h2
    · rintro (_ | ⟨-, h1, h2⟩)
      exact ⟨h1, h2, rfl⟩

theorem sound_init (limit : Nat) : Sound limit { room := limit } :=
  ⟨Nat.zero_add limit, Nat.zero_le limit, Nat.zero_le 1⟩

theorem Sound.step {limit : Nat} {s r : State} {tok : Located} (hs : Sound limit s)
    (h : s.step limit tok = .ok r) : Sound limit r := by
  have hsp := step_spine h
  have hroom : r.opened.length + r.room = limit := (room_step h).trans hs.room
  refine ⟨hroom, ?_, ?_⟩
  · rw [Spine.height_step hsp]
    split
    · rename_i htok
      rw [htok] at hsp
      have hlen : r.spine.opened.length = s.spine.opened.length + 1 :=
        Spine.length_opened_step hsp
      rw [length_opened_spine, length_opened_spine] at hlen
      have := hs.height
      rw [length_opened_spine]
      omega
    · exact hs.height
  · rw [Spine.width_step hsp]
    split
    · rename_i hopen
      -- a step outside all lists that follows a root would have failed
      have htop : s.spine.top = [] := by
        apply Classical.byContradiction
        intro htop
        have herr : ∃ err, Rejects limit s.spine tok err := by
          obtain ⟨token, offset⟩ := tok
          by_cases ht : token = .rparen
          · subst ht
            exact ⟨_, .unexpectedClose hopen⟩
          · exact ⟨_, .multipleTopLevel ht hopen htop⟩
        obtain ⟨err, herr⟩ := herr
        rw [(step_eq_error_iff hs).2 herr] at h
        cases h
      rw [Spine.width, htop, hopen]
      exact Nat.le_refl 1
    · exact hs.width

/-! ## Runs -/

/-- The state of the parser after a row of tokens. -/
def run (limit : Nat) (ts : List Located) : Except ReadError State :=
  ts.foldlM (State.step limit) { room := limit }

theorem parse_eq (limit : Nat) (ts : List Located) :
    parse limit ts = run limit ts >>= State.finish := rfl

theorem run_append (limit : Nat) (ts us : List Located) :
    run limit (ts ++ us) = run limit ts >>= fun s => us.foldlM (State.step limit) s :=
  List.foldlM_append

theorem run_append_of_ok {limit : Nat} {ts : List Located} {s : State} (h : run limit ts = .ok s)
    (us : List Located) : run limit (ts ++ us) = us.foldlM (State.step limit) s := by
  rw [run_append, h]
  rfl

theorem run_append_of_error {limit : Nat} {ts : List Located} {err : ReadError}
    (h : run limit ts = .error err) (us : List Located) : run limit (ts ++ us) = .error err := by
  rw [run_append, h]
  rfl

theorem run_concat {limit : Nat} {ts : List Located} {s : State} (h : run limit ts = .ok s)
    (tok : Located) : run limit (ts ++ [tok]) = s.step limit tok := by
  rw [run_append_of_ok h, List.foldlM_cons]
  cases s.step limit tok <;> rfl

/-- In every state that the parser reaches, the spine spells the tokens behind it. -/
theorem run_eq_ok {limit : Nat} {ts : List Located} {s : State} (h : run limit ts = .ok s) :
    Sound limit s ∧ s.spine.tokens = ts.map Located.token := by
  induction ts using List.reverseRecOn generalizing s with
  | nil =>
    cases h
    exact ⟨sound_init limit, rfl⟩
  | append_singleton ts tok ih =>
    cases hr : run limit ts with
    | error err =>
      rw [run_append_of_error hr] at h
      cases h
    | ok r =>
      obtain ⟨hsound, htokens⟩ := ih hr
      rw [run_concat hr] at h
      refine ⟨hsound.step h, ?_⟩
      rw [Spine.tokens_step (step_spine h), htokens, List.map_append]
      rfl

/-- The run over a row of tokens fails at token `i`. -/
def RaisesAt (limit : Nat) (ts : List Located) (i : Nat) (err : ReadError) : Prop :=
  ∃ s tok, run limit (ts.take i) = .ok s ∧ ts[i]? = some tok ∧ s.step limit tok = .error err

theorem RaisesAt.run_eq {limit : Nat} {ts : List Located} {i : Nat} {err : ReadError}
    (h : RaisesAt limit ts i err) : run limit ts = .error err := by
  obtain ⟨s, tok, hs, hi, herr⟩ := h
  rw [eq_take_append_cons_drop hi, ← List.singleton_append, ← List.append_assoc]
  exact run_append_of_error ((run_concat hs tok).trans herr) _

/-- A run fails iff it fails at one of its tokens. -/
theorem run_eq_error_iff {limit : Nat} {ts : List Located} {err : ReadError} :
    run limit ts = .error err ↔ ∃ i, RaisesAt limit ts i err := by
  refine ⟨?_, fun ⟨i, hi⟩ => hi.run_eq⟩
  intro h
  induction ts using List.reverseRecOn with
  | nil => cases h
  | append_singleton ts tok ih =>
    cases hr : run limit ts with
    | error err' =>
      rw [run_append_of_error hr] at h
      cases h
      obtain ⟨i, s, tok', hs, hi, herr⟩ := ih hr
      have hlt : i < ts.length := (List.getElem?_eq_some_iff.1 hi).1
      refine ⟨i, s, tok', ?_, ?_, herr⟩
      · rw [List.take_append_of_le_length (Nat.le_of_lt hlt)]
        exact hs
      · rw [List.getElem?_append_left hlt]
        exact hi
    | ok r =>
      rw [run_concat hr] at h
      refine ⟨ts.length, r, tok, ?_, ?_, h⟩
      · rw [List.take_left' rfl]
        exact hr
      · simp

theorem RaisesAt.rejects {limit : Nat} {ts : List Located} {i : Nat} {err : ReadError}
    (h : RaisesAt limit ts i err) :
    ∃ s tok, ts = ts.take i ++ tok :: ts.drop (i + 1) ∧ run limit (ts.take i) = .ok s ∧
      Rejects limit s.spine tok err := by
  obtain ⟨s, tok, hs, hi, herr⟩ := h
  exact ⟨s, tok, eq_take_append_cons_drop hi, hs, (step_eq_error_iff (run_eq_ok hs).1).1 herr⟩

/-! ## What is accepted -/

theorem finish_eq_ok_iff {s : State} {e : Expr} :
    s.finish = .ok e ↔ s.opened = [] ∧ s.root?.getD (.list []) = e := by
  unfold State.finish
  split <;> simp

/-- A row that ends outside all lists is accepted. -/
theorem parse_of_opened_eq_nil {limit : Nat} {ts : List Located} {s : State}
    (h : run limit ts = .ok s) (hopen : s.opened = []) :
    parse limit ts = .ok (s.root?.getD (.list [])) := by
  rw [parse_eq, h]
  exact finish_eq_ok_iff.2 ⟨hopen, rfl⟩

theorem finish_eq_error_iff {s : State} {err : ReadError} :
    s.finish = .error err ↔
      ∃ frame outer, s.opened = frame :: outer ∧ err = .unclosedList frame.offset := by
  obtain ⟨root?, opened, room⟩ := s
  cases opened <;> simp [State.finish, @eq_comm _ err]

/-- In the middle of a flattening, only a list that is opened at the limit is rejected. -/
theorem Rejects.of_tokens {limit : Nat} {s : Spine} {tok : Located} {err : ReadError} {e : Expr}
    {post : List Token} (h : Rejects limit s tok err)
    (he : e.tokens = s.tokens ++ tok.token :: post) :
    tok.token = .lparen ∧ s.opened.length = limit ∧ limit < e.height ∧
      err = .tooDeep tok.offset limit := by
  have hrun : Spine.run {} (s.tokens ++ tok.token :: post) = some ⟨[e], []⟩ := by
    rw [← he, Spine.run_eq_some_iff]
    simp
  rw [Spine.run_append, Spine.run_tokens_self] at hrun
  obtain ⟨m, hm, hpost⟩ := Spine.run_cons_eq_some hrun
  cases h with
  | unexpectedClose hopen =>
    rw [Spine.step_eq_none_iff.2 ⟨rfl, hopen⟩] at hm
    cases hm
  | multipleTopLevel ht hopen htop =>
    -- a second expression would begin outside all lists
    have hwidth := Spine.width_le_of_run hpost
    have hlen := List.length_pos_iff.2 htop
    rw [Spine.width_step hm, if_pos hopen] at hwidth
    simp only [Spine.width, List.length_singleton, List.length_nil] at hwidth
    omega
  | tooDeep htop hlen =>
    have hheight := Spine.height_le_of_run hpost
    rw [Spine.height_step hm, if_pos rfl] at hheight
    simp only [Spine.height, Spine.openHeight, Expr.heightAll] at hheight
    exact ⟨rfl, hlen, by omega, rfl⟩

/-- The run over a flattening fails only at a list that is opened at the limit, and only if the
expression is too high. -/
theorem RaisesAt.of_tokens {limit : Nat} {ts : List Located} {i : Nat} {err : ReadError} {e : Expr}
    (h : RaisesAt limit ts i err) (hts : ts.map Located.token = e.tokens) :
    limit < e.height ∧ ∃ s offset, ts = ts.take i ++ ⟨.lparen, offset⟩ :: ts.drop (i + 1) ∧
      run limit (ts.take i) = .ok s ∧ s.opened.length = limit ∧ err = .tooDeep offset limit := by
  obtain ⟨s, ⟨token, offset⟩, hsplit, hs, hrej⟩ := h.rejects
  have htokens : e.tokens = s.spine.tokens ++ token :: (ts.drop (i + 1)).map Located.token := by
    rw [← hts, (run_eq_ok hs).2, ← List.map_cons (f := Located.token) (a := ⟨token, offset⟩),
      ← List.map_append, ← hsplit]
  obtain ⟨rfl, hlen, hheight, rfl⟩ := hrej.of_tokens htokens
  exact ⟨hheight, s, offset, hsplit, hs, by rwa [← length_opened_spine], rfl⟩

theorem spine_of_run_tokens {limit : Nat} {ts : List Located} {s : State} {e : Expr}
    (h : run limit ts = .ok s) (hts : ts.map Located.token = e.tokens) : s.spine = ⟨[e], []⟩ := by
  apply Spine.tokens_injective
  rw [(run_eq_ok h).2, hts, Spine.tokens_complete, List.flatMap_singleton]

theorem run_of_tokens {limit : Nat} {ts : List Located} {e : Expr}
    (hts : ts.map Located.token = e.tokens) (he : e.height ≤ limit) :
    ∃ s, run limit ts = .ok s ∧ s.opened = [] ∧ s.root? = some e := by
  cases h : run limit ts with
  | error err =>
    obtain ⟨i, hi⟩ := run_eq_error_iff.1 h
    exact absurd (hi.of_tokens hts).1 (Nat.not_lt.2 he)
  | ok s =>
    have hspine := spine_of_run_tokens h hts
    refine ⟨s, rfl, ?_, ?_⟩
    · exact opened_spine_eq_nil_iff.1 (by rw [hspine])
    · have htop := congrArg Spine.top hspine
      cases hroot : s.root? with
      | none => simp [State.spine, hroot] at htop
      | some root => simpa [State.spine, hroot] using htop

/-- The parser accepts no tokens at all, as the empty list, and the flattening of every expression
that is not too high. -/
theorem parse_eq_ok_iff {limit : Nat} {ts : List Located} {e : Expr} :
    parse limit ts = .ok e ↔
      (ts = [] ∧ e = .list []) ∨ (ts.map Located.token = e.tokens ∧ e.height ≤ limit) := by
  constructor
  · intro h
    rw [parse_eq] at h
    cases hr : run limit ts with
    | error err =>
      rw [hr] at h
      cases h
    | ok s =>
      rw [hr] at h
      obtain ⟨hopen, hroot⟩ := finish_eq_ok_iff.1 h
      obtain ⟨hsound, htokens⟩ := run_eq_ok hr
      have hheight := hsound.height
      cases hs : s.root? with
      | none =>
        rw [hs] at hroot
        simp only [State.spine, hs, hopen, Spine.tokens, Option.toList_none, List.map_nil,
          List.flatMap_nil, List.reverse_nil, List.append_nil] at htokens
        exact .inl ⟨List.map_eq_nil_iff.1 htokens.symm, hroot.symm⟩
      | some root =>
        rw [hs] at hroot
        obtain rfl : root = e := hroot
        simp only [State.spine, hs, hopen, Option.toList_some, List.map_nil, Spine.tokens_complete,
          List.flatMap_singleton, Spine.height, Expr.heightAll, Spine.openHeight] at htokens hheight
        exact .inr ⟨htokens.symm, by omega⟩
  · rintro (⟨rfl, rfl⟩ | ⟨hts, he⟩)
    · rfl
    · obtain ⟨s, hs, hopen, hroot⟩ := run_of_tokens hts he
      rw [parse_eq, hs]
      exact finish_eq_ok_iff.2 ⟨hopen, by rw [hroot]; rfl⟩

/-! ## What is too deep -/

theorem unclosed_of_run {limit : Nat} {ts : List Located} {s : State} (h : run limit ts = .ok s) :
    unclosed (ts.map Located.token) = s.opened.length := by
  rw [← (run_eq_ok h).2, Spine.unclosed_tokens, length_opened_spine]

theorem exists_run_of_append {limit : Nat} {ts us : List Located} {s : State}
    (h : run limit (ts ++ us) = .ok s) : ∃ r, run limit ts = .ok r := by
  cases hr : run limit ts with
  | error err =>
    rw [run_append_of_error hr] at h
    cases h
  | ok r => exact ⟨r, rfl⟩

theorem unclosed_lt_of_run {limit : Nat} {pre post : List Located} {offset : Nat} {s : State}
    (h : run limit (pre ++ ⟨.lparen, offset⟩ :: post) = .ok s) :
    unclosed (pre.map Located.token) < limit := by
  have hsplit : pre ++ ⟨.lparen, offset⟩ :: post = pre ++ [⟨.lparen, offset⟩] ++ post := by simp
  rw [hsplit] at h
  obtain ⟨m, hm⟩ := exists_run_of_append h
  have hroom := (run_eq_ok hm).1.room
  have hopen := unclosed_of_run hm
  rw [List.map_append, unclosed_append] at hopen
  replace hopen : unclosed (pre.map Located.token) + 1 = m.opened.length := hopen
  omega

/-- Of a flattening that is too high, the first list that is opened at the limit is rejected. -/
theorem parse_of_limit_lt_height {limit : Nat} {ts : List Located} {e : Expr}
    (hts : ts.map Located.token = e.tokens) (he : limit < e.height) :
    ∃ pre offset post, ts = pre ++ ⟨.lparen, offset⟩ :: post ∧
      unclosed (pre.map Located.token) = limit ∧
      (∀ pre' offset' post', pre = pre' ++ ⟨.lparen, offset'⟩ :: post' →
        unclosed (pre'.map Located.token) < limit) ∧
      parse limit ts = .error (.tooDeep offset limit) := by
  cases h : run limit ts with
  | ok s =>
    have hheight := (run_eq_ok h).1.height
    simp only [spine_of_run_tokens h hts, Spine.height, Expr.heightAll, Spine.openHeight] at hheight
    omega
  | error err =>
    obtain ⟨i, hi⟩ := run_eq_error_iff.1 h
    obtain ⟨-, s, offset, hsplit, hs, hlen, rfl⟩ := hi.of_tokens hts
    refine ⟨ts.take i, offset, ts.drop (i + 1), hsplit, ?_, ?_, ?_⟩
    · rw [unclosed_of_run hs, hlen]
    · intro pre' offset' post' hpre
      rw [hpre] at hs
      exact unclosed_lt_of_run hs
    · rw [parse_eq, h]
      rfl

end Sexp.Strict
