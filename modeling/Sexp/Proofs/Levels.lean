import Sexp.Proofs.Conservation

/-!
# The levels of the lenient parser

The lenient parser works in turns. As long as it reads, a turn takes in one token; afterwards a turn
closes one of the lists that are open at the end. Between any two turns its layers are those of a
spine (`layersOf`), so that everything inside a list is put together as a list, and a list that ends
is never dropped.

* `leveled_of_layers`: what it says of a state that its layers are those of a spine.
* `leave_of_layers`: a layer that ends has an expression, which goes to the layer around it.
* `Turn.effect_of_next?`: what a turn can do; `Turn.Effect.outcome_eq`, `Turn.Effect.exists_layers`,
  `Turn.Effect.length_pending`: what it keeps.
* `Passes`: the turns that a parse comes to.
* `lenient_parse_levels`: what holds at every turn of a parse.
-/

namespace Sexp.Lenient

/-- What holds of the layers between two turns. -/
structure State.Leveled (s : State) : Prop where
  /-- If there are layers around the current one, it is a list. -/
  current : s.pending ≠ [] → ∃ items, s.current = .list items
  /-- Every layer around the current one is a list, the outermost excepted. -/
  around : ∀ layer ∈ s.pending.dropLast, ∃ items, layer = .list items
  /-- A lone expression is an atom. -/
  bare : ∀ e, .bare e ∈ s.layers → e.isAtom = true

section
variable {s r : State} {p : Spine}

theorem leveled_of_layers (h : s.layers = layersOf p) : s.Leveled := by
  obtain ⟨pending, current, events⟩ := s
  obtain ⟨top, opened⟩ := p
  have hbare : ∀ e, .bare e ∈ layersOf ⟨top, opened⟩ → e.isAtom = true := by
    intro e he
    have htop : .bare e = topLayer top := by simpa [layersOf] using he
    rcases topLayer_cases top with hempty | ⟨text, hatom⟩ | ⟨items, hlist⟩
    · rw [hempty] at htop
      cases htop
    · rw [hatom] at htop
      cases htop
      rfl
    · rw [hlist] at htop
      cases htop
  rw [← h] at hbare
  cases opened with
  | nil =>
    obtain ⟨rfl, rfl⟩ := layers_eq_nil_iff.1 h
    exact ⟨fun hne => absurd rfl hne, fun layer hlayer => absurd hlayer List.not_mem_nil, hbare⟩
  | cons items outer =>
    obtain ⟨rfl, rfl⟩ := layers_eq_cons_iff.1 h
    refine ⟨fun _ => ⟨_, rfl⟩, fun layer hlayer => ?_, hbare⟩
    rw [layersOf, List.dropLast_concat] at hlayer
    obtain ⟨items', -, rfl⟩ := List.mem_map.1 hlayer
    exact ⟨_, rfl⟩

/-- A layer that ends inside another one is a list, and it is added to the layer around it. -/
theorem leave_of_layers (h : s.layers = layersOf p) {parent : Layer} {outer : List Layer}
    (hpending : s.pending = parent :: outer) :
    ∃ e, s.current.expr? = some e ∧ s.leave = .ok (State.add ⟨outer, parent, s.events⟩ e) := by
  obtain ⟨pending, current, events⟩ := s
  obtain rfl : pending = parent :: outer := hpending
  obtain ⟨items, rfl⟩ : ∃ items, current = .list items :=
    (leveled_of_layers h).current (List.cons_ne_nil parent outer)
  exact ⟨_, rfl, rfl⟩

theorem exists_layers_of_step (h : s.layers = layersOf p) {t : Token} (hr : s.step t = .ok r) :
    ∃ q, r.layers = layersOf q := by
  rcases layers_step h t with ⟨r', q, hr', -, hq⟩ | ⟨herror, -⟩
  · rw [hr] at hr'
    cases hr'
    exact ⟨q, hq⟩
  · rw [hr] at herror
    cases herror

theorem closeAll_of_leave (h : s.leave = .ok r) : s.closeAll = r.closeAll := by
  rw [State.closeAll.eq_def, h]

theorem isEmpty_pending_of_leave (h : s.leave = .ok r) : s.pending.isEmpty = false := by
  have := State.length_pending_of_leave h
  rw [List.isEmpty_eq_false_iff, ← List.length_pos_iff]
  omega

end

/-! ## Turns -/

/-- A parse at the beginning of a turn, with the tokens that are left: either it reads, or it closes
the lists that are open at the end. -/
inductive Turn where
  | reading (s : State) (rest : List Located)
  | closing (s : State) (rest : List Located)

namespace Turn

def state : Turn → State
  | reading s _ => s
  | closing s _ => s

def rest : Turn → List Located
  | reading _ rest => rest
  | closing _ rest => rest

/-- What the parse comes to from here. -/
def outcome : Turn → Logged Expr
  | reading s rest => (s.consume rest).noteUnclosed.closeAll.result
  | closing s _ => s.closeAll.result

/-- The turn after this one. There is none if no list is left to be closed. -/
def next? : Turn → Option Turn
  | reading s [] => some (closing s.noteUnclosed [])
  | reading s (⟨token, offset⟩ :: rest) =>
    match s.step token with
    | .ok r => some (reading r rest)
    | .error r =>
      let r := if rest.isEmpty then r else r.note (.strayClose offset rest.length)
      some (closing r.noteUnclosed rest)
  | closing s rest =>
    match s.leave with
    | .ok r => some (closing r rest)
    | .error _ => none

/-- The token that the turn takes out of the row, if it reads one. -/
def taken : Turn → List Located
  | reading _ (tok :: _) => [tok]
  | _ => []

/-- The number of lists that the turn closes: one, if it comes to an end of a list, be it a closing
parenthesis or the end of all, and a list is open. -/
def closes : Turn → Nat
  | reading s (⟨.rparen, _⟩ :: _) => if s.pending.isEmpty then 0 else 1
  | closing s _ => if s.pending.isEmpty then 0 else 1
  | _ => 0

/-- What a turn can do. -/
inductive Effect : Turn → Turn → Prop
  /-- It comes to the end of the tokens. -/
  | ended (s : State) : Effect (reading s []) (closing s.noteUnclosed [])
  /-- It takes in a token. -/
  | taken {s r : State} {token : Token} {offset : Nat} {rest : List Located}
      (hstep : s.step token = .ok r) :
      Effect (reading s (⟨token, offset⟩ :: rest)) (reading r rest)
  /-- It stops at a stray closing parenthesis. -/
  | stopped {s r : State} {offset : Nat} {rest : List Located} (hpending : s.pending = [])
      (hlayers : r.layers = s.layers) (hconsume : s.consume (⟨.rparen, offset⟩ :: rest) = r) :
      Effect (reading s (⟨.rparen, offset⟩ :: rest)) (closing r.noteUnclosed rest)
  /-- It closes a list at the end. -/
  | closed {s r : State} {rest : List Located} (hleave : s.leave = .ok r) :
      Effect (closing s rest) (closing r rest)

theorem effect_of_next? {t u : Turn} (h : t.next? = some u) : Effect t u := by
  cases t with
  | reading s rest =>
    cases rest with
    | nil =>
      cases h
      exact .ended s
    | cons tok rest =>
      obtain ⟨token, offset⟩ := tok
      rw [next?] at h
      cases hstep : s.step token with
      | ok r =>
        rw [hstep] at h
        cases h
        exact .taken hstep
      | error r =>
        rw [hstep] at h
        cases h
        cases token with
        | rparen =>
          obtain ⟨hpending, rfl⟩ := State.leave_eq_error_iff.1 hstep
          refine .stopped hpending ?_ ?_
          · split <;> rfl
          · rw [State.consume, hstep]
        | lparen => cases hstep
        | text text => cases hstep
  | closing s rest =>
    rw [next?] at h
    cases hleave : s.leave with
    | ok r =>
      rw [hleave] at h
      cases h
      exact .closed hleave
    | error r =>
      rw [hleave] at h
      cases h

end Turn

/-! ## What turns keep -/

@[simp] theorem pending_noteUnclosed (s : State) : s.noteUnclosed.pending = s.pending :=
  congrArg List.tail (layers_noteUnclosed s)

namespace Turn.Effect

variable {t u : Turn} {p : Spine}

/-- A turn does not change what the parse comes to. -/
theorem outcome_eq (h : t.Effect u) : u.outcome = t.outcome := by
  cases h with
  | ended s => rfl
  | taken hstep => rw [outcome, outcome, State.consume, hstep]
  | stopped _ _ hconsume => rw [outcome, outcome, hconsume]
  | closed hleave => rw [outcome, outcome, closeAll_of_leave hleave]

/-- A turn takes its token from the front of those that are left. -/
theorem taken_append_rest (h : t.Effect u) : t.taken ++ u.rest = t.rest := by
  cases h <;> rfl

/-- If the layers are those of a spine, they still are after a turn. -/
theorem exists_layers (h : t.Effect u) (hp : t.state.layers = layersOf p) :
    ∃ q, u.state.layers = layersOf q := by
  cases h with
  | ended s => exact ⟨p, (layers_noteUnclosed s).trans hp⟩
  | taken hstep => exact exists_layers_of_step hp hstep
  | @stopped s r offset rest _ hlayers _ =>
    exact ⟨p, (layers_noteUnclosed r).trans (hlayers.trans hp)⟩
  | @closed s r rest hleave =>
    -- to close a list at the end is to take in a closing parenthesis
    have hstep : s.step .rparen = .ok r := hleave
    exact exists_layers_of_step hp hstep

/-- The layers around the current one become one more with an opening parenthesis and one less with
a list that is closed. -/
theorem length_pending (h : t.Effect u) :
    u.state.pending.length + t.closes =
      t.state.pending.length + (t.taken.map Located.token).count .lparen := by
  cases h with
  | ended s => simp [state, closes, Turn.taken]
  | @taken s r token offset rest hstep =>
    cases token with
    | lparen =>
      cases hstep
      simp [state, closes, Turn.taken, State.descend]
    | rparen =>
      have hlength := State.length_pending_of_leave hstep
      simpa [state, closes, Turn.taken, isEmpty_pending_of_leave hstep] using hlength
    | text text =>
      cases hstep
      simp [state, closes, Turn.taken]
  | @stopped s r offset rest hpending hlayers _ =>
    have hr : r.pending = s.pending := congrArg List.tail hlayers
    simp [state, closes, Turn.taken, hr, hpending]
  | closed hleave =>
    have hlength := State.length_pending_of_leave hleave
    simpa [state, closes, Turn.taken, isEmpty_pending_of_leave hleave] using hlength

end Turn.Effect

/-! ## The turns of a parse -/

/-- `Passes tokens t taken closed`: the parse of `tokens` comes to the turn `t`, and the turns before
it have taken the tokens `taken` and closed `closed` lists. -/
inductive Passes (tokens : List Located) : Turn → List Located → Nat → Prop
  | start : Passes tokens (.reading {} tokens) [] 0
  | next {t u : Turn} {taken : List Located} {closed : Nat} (h : Passes tokens t taken closed)
      (hnext : t.next? = some u) : Passes tokens u (taken ++ t.taken) (closed + t.closes)

section
variable {tokens taken : List Located} {t : Turn} {closed : Nat}

theorem Passes.outcome_eq (h : Passes tokens t taken closed) : t.outcome = parse tokens := by
  induction h with
  | start => rfl
  | next _ hnext ih => exact (Turn.effect_of_next? hnext).outcome_eq.trans ih

theorem Passes.taken_append_rest (h : Passes tokens t taken closed) :
    taken ++ t.rest = tokens := by
  induction h with
  | start => rfl
  | next _ hnext ih =>
    rw [List.append_assoc, (Turn.effect_of_next? hnext).taken_append_rest, ih]

theorem Passes.exists_layers (h : Passes tokens t taken closed) :
    ∃ p, t.state.layers = layersOf p := by
  induction h with
  | start => exact ⟨{}, rfl⟩
  | next _ hnext ih =>
    obtain ⟨p, hp⟩ := ih
    exact (Turn.effect_of_next? hnext).exists_layers hp

theorem Passes.length_pending (h : Passes tokens t taken closed) :
    t.state.pending.length + closed = (taken.map Located.token).count .lparen := by
  induction h with
  | start => rfl
  | next _ hnext ih =>
    have := (Turn.effect_of_next? hnext).length_pending
    rw [List.map_append, List.count_append]
    omega

/-- At every turn of a parse, the current layer is a list if others are around it, of these all but
the outermost are lists, and a lone expression is an atom; there are as many layers around as
opening parentheses have been taken and their lists not been closed; and if a layer ends there, it
is an expression and joins the layer around it. -/
theorem lenient_parse_levels (h : Passes tokens t taken closed) :
    t.outcome = parse tokens ∧ taken ++ t.rest = tokens ∧ t.state.Leveled ∧
      t.state.pending.length + closed = (taken.map Located.token).count .lparen ∧
      ∀ parent outer, t.state.pending = parent :: outer →
        ∃ e, t.state.current.expr? = some e ∧
          t.state.leave = .ok (State.add ⟨outer, parent, t.state.events⟩ e) := by
  obtain ⟨p, hp⟩ := h.exists_layers
  exact ⟨h.outcome_eq, h.taken_append_rest, leveled_of_layers hp, h.length_pending,
    fun _ _ => leave_of_layers hp⟩

end

/-- At the end of `a(()`, the inner list is closed and the outer one is not. -/
theorem lenient_parse_levels_unclosed :
    Passes [⟨.text "a", 0⟩, ⟨.lparen, 1⟩, ⟨.lparen, 2⟩, ⟨.rparen, 3⟩]
        (.closing ⟨[.bare (.atom "a")], .list #[.list []], #[.unclosedAtEnd 1]⟩ [])
        [⟨.text "a", 0⟩, ⟨.lparen, 1⟩, ⟨.lparen, 2⟩, ⟨.rparen, 3⟩] 1 ∧
      State.Leveled ⟨[.bare (.atom "a")], .list #[.list []], #[.unclosedAtEnd 1]⟩ ∧
      State.leave ⟨[.bare (.atom "a")], .list #[.list []], #[.unclosedAtEnd 1]⟩ =
        .ok (State.add ⟨[], .bare (.atom "a"), #[.unclosedAtEnd 1]⟩ (.list [.list []])) := by
  have hstart : Passes [⟨.text "a", 0⟩, ⟨.lparen, 1⟩, ⟨.lparen, 2⟩, ⟨.rparen, 3⟩] _ [] 0 := .start
  have h : Passes [⟨.text "a", 0⟩, ⟨.lparen, 1⟩, ⟨.lparen, 2⟩, ⟨.rparen, 3⟩]
      (.closing ⟨[.bare (.atom "a")], .list #[.list []], #[.unclosedAtEnd 1]⟩ [])
      [⟨.text "a", 0⟩, ⟨.lparen, 1⟩, ⟨.lparen, 2⟩, ⟨.rparen, 3⟩] 1 :=
    ((((hstart.next rfl).next rfl).next rfl).next rfl).next rfl
  obtain ⟨-, -, hleveled, -, hleave⟩ := lenient_parse_levels h
  obtain ⟨e, he, hadd⟩ := hleave _ _ rfl
  cases he
  exact ⟨h, hleveled, hadd⟩

end Sexp.Lenient
