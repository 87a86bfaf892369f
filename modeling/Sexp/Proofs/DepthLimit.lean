import Sexp.Proofs.Viability
import Mathlib.Data.Nat.Find

/-!
# The depth limit

The limit of the strict parser has a say in one error only: with more room, the parser does what it
does with less, unless that was to refuse a list as too deep. Among the limits there is therefore a
least one that suffices. From there on the limit makes no difference, and below it the first list
that is opened at the limit is refused.

* `step_addRoom`, `foldlM_step_addRoom`: a step and a run with more room.
* `parse_of_le`: a row that is not too deep, with a higher limit.
* `firstOpening_of_tooDeep`: the list that is refused.
* `strict_parse_threshold`: the least limit that suffices.
-/

namespace Sexp

/-- A list has been refused as too deep. -/
def TooDeep {α : Type} (r : Except ReadError α) : Prop :=
  ∃ offset limit, r = .error (.tooDeep offset limit)

theorem TooDeep.bind {α β : Type} {r : Except ReadError α} (h : TooDeep r)
    (f : α → Except ReadError β) : TooDeep (r >>= f) := by
  obtain ⟨offset, limit, rfl⟩ := h
  exact ⟨offset, limit, rfl⟩

namespace Strict

variable {limit : Nat} {ts : List Located}

/-! ## More room -/

/-- The state of a parser whose limit is higher by `k`. -/
def State.addRoom (k : Nat) (s : State) : State :=
  { s with room := k + s.room }

theorem place_addRoom (k : Nat) (s : State) (offset : Nat) (e : Expr) :
    (s.addRoom k).place offset e = (s.place offset e).map (State.addRoom k) := by
  obtain ⟨root?, opened, room⟩ := s
  cases root? <;> cases opened <;> rfl

theorem descend_addRoom {s : State} {offset : Nat} (h : ¬ TooDeep (s.descend limit offset))
    (k : Nat) :
    (s.addRoom k).descend (k + limit) offset =
      (s.descend limit offset).map (State.addRoom k) := by
  obtain ⟨root?, opened, room⟩ := s
  cases room with
  | succ room => cases root? <;> cases opened <;> rfl
  | zero =>
    -- only a second expression is refused for another reason
    cases root? <;> cases opened
    · exact absurd ⟨offset, limit, rfl⟩ h
    · exact absurd ⟨offset, limit, rfl⟩ h
    · rfl
    · exact absurd ⟨offset, limit, rfl⟩ h

theorem close_addRoom (k : Nat) (s : State) (offset : Nat) :
    (s.addRoom k).close offset = (s.close offset).map (State.addRoom k) := by
  obtain ⟨root?, opened, room⟩ := s
  cases opened with
  | nil => rfl
  | cons frame outer => exact place_addRoom k ⟨root?, outer, room + 1⟩ offset _

/-- With more room, a step is the same, unless it refused a list as too deep. -/
theorem step_addRoom {s : State} {tok : Located} (h : ¬ TooDeep (s.step limit tok)) (k : Nat) :
    (s.addRoom k).step (k + limit) tok = (s.step limit tok).map (State.addRoom k) := by
  obtain ⟨token, offset⟩ := tok
  cases token with
  | lparen => exact descend_addRoom h k
  | rparen => exact close_addRoom k s offset
  | text text => exact place_addRoom k s offset (.atom text)

theorem foldlM_step_addRoom {s : State} (h : ¬ TooDeep (ts.foldlM (State.step limit) s))
    (k : Nat) :
    ts.foldlM (State.step (k + limit)) (s.addRoom k) =
      (ts.foldlM (State.step limit) s).map (State.addRoom k) := by
  induction ts generalizing s with
  | nil => rfl
  | cons tok ts ih =>
    rw [List.foldlM_cons] at h
    rw [List.foldlM_cons, List.foldlM_cons, step_addRoom (fun hstep => h (hstep.bind _))]
    cases hstep : s.step limit tok with
    | error err => rfl
    | ok r =>
      rw [hstep] at h
      exact ih h

theorem finish_addRoom (k : Nat) (s : State) : (s.addRoom k).finish = s.finish := by
  obtain ⟨root?, opened, room⟩ := s
  cases opened <;> rfl

theorem parse_add (h : ¬ TooDeep (parse limit ts)) (k : Nat) :
    parse (k + limit) ts = parse limit ts := by
  have hrun : run (k + limit) ts = (run limit ts).map (State.addRoom k) :=
    foldlM_step_addRoom (fun hrun => h (hrun.bind _)) k
  rw [parse_eq, parse_eq, hrun]
  cases run limit ts with
  | error err => rfl
  | ok s => exact finish_addRoom k s

/-- Unless a list is refused as too deep, a higher limit makes no difference. -/
theorem parse_of_le {limit' : Nat} (h : ¬ TooDeep (parse limit ts)) (hle : limit ≤ limit') :
    parse limit' ts = parse limit ts := by
  rw [← Nat.sub_add_cancel hle]
  exact parse_add h _

/-! ## Lists that are refused -/

/-- A list is refused as too deep only where it is the first to be opened at the limit. -/
theorem firstOpening_of_tooDeep {offset depth : Nat}
    (h : parse limit ts = .error (.tooDeep offset depth)) :
    depth = limit ∧ ∃ i, FirstOpening .lparen .rparen (ts.map Located.token) limit i ∧
      ts[i]? = some ⟨.lparen, offset⟩ := by
  rcases parse_eq_error_iff.1 h with ⟨i, s, tok, hs, hi, hstep⟩ | ⟨_, _, _, -, -, herr⟩
  · have hrej := (step_eq_error_iff (run_eq_ok hs).1).1 hstep
    cases hrej with
    | tooDeep htop hlen =>
      refine ⟨rfl, i, ⟨?_, ?_, ?_⟩, hi⟩
      · rw [List.getElem?_map, hi]
        rfl
      · rw [← hlen, length_opened_spine, ← List.map_take]
        exact unclosed_of_run hs
      · intro k hk hopens
        rw [List.getElem?_map, Option.map_eq_some_iff] at hopens
        obtain ⟨⟨token, offset'⟩, hopens, rfl⟩ := hopens
        have htake : (ts.take i)[k]? = some ⟨.lparen, offset'⟩ := by
          rwa [List.getElem?_take_of_lt hk]
        rw [eq_take_append_cons_drop htake, List.take_take, Nat.min_eq_left (Nat.le_of_lt hk)] at hs
        rw [← List.map_take]
        exact Nat.ne_of_lt (unclosed_lt_of_run hs)
  · cases herr

/-- With as much room as there are opening parentheses, no list is too deep. -/
theorem not_tooDeep_of_count_le (h : (ts.map Located.token).count .lparen ≤ limit) :
    ¬ TooDeep (parse limit ts) := by
  intro ⟨offset, depth, hparse⟩
  obtain ⟨-, i, hfirst, -⟩ := firstOpening_of_tooDeep hparse
  have hinside : limit ≤ ((ts.map Located.token).take i).count .lparen :=
    Nat.le_trans (Nat.le_of_eq hfirst.inside.symm) (unclosed_le_count _)
  rw [eq_take_append_cons_drop hfirst.opens, List.count_append, List.count_cons_self] at h
  omega

/-- A row that is accepted needs a limit that is as high as the expression. -/
theorem tooDeep_iff_of_tokens {e : Expr} (h : ts.map Located.token = e.tokens) :
    TooDeep (parse limit ts) ↔ limit < e.depth := by
  rw [Expr.depth_eq_height]
  constructor
  · intro ⟨offset, depth, hparse⟩
    apply Nat.lt_of_not_le
    intro hle
    rw [parse_eq_ok_iff.2 (.inr ⟨h, hle⟩)] at hparse
    cases hparse
  · intro hlt
    obtain ⟨-, offset, -, -, -, -, hparse⟩ := parse_of_limit_lt_height h hlt
    exact ⟨offset, limit, hparse⟩

end Strict

/-! ## The least limit that suffices -/

/-- There is a least limit that suffices for a row of tokens, no higher than the number of its
opening parentheses. Every limit from there on leads to the same result. With a lower one, the first
list that is opened at the limit is refused, whatever else is wrong with the row. For one expression
the least limit is its depth. -/
theorem strict_parse_threshold (ts : List Located) :
    ∃ (least : Nat) (r : Except ReadError Expr),
      least ≤ (ts.map Located.token).count .lparen ∧
      (∀ offset limit, r ≠ .error (.tooDeep offset limit)) ∧
      (∀ limit, least ≤ limit → Strict.parse limit ts = r) ∧
      (∀ limit, limit < least →
        ∃ i offset, FirstOpening .lparen .rparen (ts.map Located.token) limit i ∧
          ts[i]? = some ⟨.lparen, offset⟩ ∧
          Strict.parse limit ts = .error (.tooDeep offset limit)) ∧
      (∀ e, r = .ok e → ts ≠ [] → least = e.depth) := by
  classical
  have henough : ¬ TooDeep (Strict.parse ((ts.map Located.token).count .lparen) ts) :=
    Strict.not_tooDeep_of_count_le (Nat.le_refl _)
  have hexists : ∃ limit, ¬ TooDeep (Strict.parse limit ts) := ⟨_, henough⟩
  refine ⟨Nat.find hexists, _, Nat.find_min' hexists henough, ?_,
    fun limit => Strict.parse_of_le (Nat.find_spec hexists), ?_, ?_⟩
  · intro offset limit hr
    exact Nat.find_spec hexists ⟨offset, limit, hr⟩
  · intro limit hlt
    obtain ⟨offset, depth, hparse⟩ := not_not.1 (Nat.find_min hexists hlt)
    obtain ⟨rfl, i, hfirst, hi⟩ := Strict.firstOpening_of_tooDeep hparse
    exact ⟨i, offset, hfirst, hi, hparse⟩
  · intro e hr hne
    rcases Strict.parse_eq_ok_iff.1 hr with ⟨hnil, -⟩ | ⟨htokens, hheight⟩
    · exact absurd hnil hne
    · refine Nat.le_antisymm (Nat.find_min' hexists ?_) ?_
      · rw [Strict.tooDeep_iff_of_tokens htokens]
        exact Nat.lt_irrefl _
      · rwa [Expr.depth_eq_height]

/-- The stray parenthesis at the end is only seen with room for both lists. -/
example :
    (Strict.parse 1 [⟨.lparen, 0⟩, ⟨.lparen, 1⟩, ⟨.rparen, 2⟩, ⟨.rparen, 3⟩, ⟨.rparen, 4⟩],
      Strict.parse 2 [⟨.lparen, 0⟩, ⟨.lparen, 1⟩, ⟨.rparen, 2⟩, ⟨.rparen, 3⟩, ⟨.rparen, 4⟩]) =
      (.error (.tooDeep 1 1), .error (.unexpectedClose 4)) := rfl

end Sexp
