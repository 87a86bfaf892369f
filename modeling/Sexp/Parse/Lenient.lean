import Sexp.Token.Basic
import Sexp.Log

/-!
# Salvaging an expression

The lenient parser makes an expression out of any row of tokens. Inside a list, what is read is
added to the list. Outside, it takes the place of what was there, except that a top-level list, once
closed, goes on collecting what follows it. A closing parenthesis that matches nothing ends the
parse, and lists that are open at the end are closed there.

* `length_pending_of_leave`: the end of a layer leaves one layer less.
* `pending_closeAll`: at the end no list is open.
-/

namespace Sexp.Lenient

/-- What has been put together at one level of nesting. -/
inductive Layer where
  | empty
  /-- A lone expression outside any list. -/
  | bare (e : Expr)
  | list (items : Array Expr)

/-- A top-level layer that begins with `e`; a list goes on as a list. -/
def Layer.ofExpr : Expr → Layer
  | .atom text => .bare (.atom text)
  | .list items => .list items.toArray

/-- The expression that the layer amounts to. -/
def Layer.expr? : Layer → Option Expr
  | empty => none
  | bare e => some e
  | list items => some (.list items.toList)

/-- The parser between two tokens: the current layer, those around it with the nearest first, and
the events so far. -/
structure State where
  pending : List Layer := []
  current : Layer := .empty
  events : Array Event := #[]

namespace State

def note (s : State) (e : Event) : State :=
  { s with events := s.events.push e }

/-- Adds an expression to the current layer. -/
def add : State → Expr → State
  | ⟨pending, .list items, events⟩, e => ⟨pending, .list (items.push e), events⟩
  | ⟨pending, .bare old, events⟩, e =>
    ⟨pending, .ofExpr e, events.push (.topLevelReplaced old)⟩
  | ⟨pending, .empty, events⟩, e => ⟨pending, .ofExpr e, events⟩

def descend (s : State) : State :=
  ⟨s.current :: s.pending, .list #[], s.events⟩

/-- Goes on with `s` after the layer inside its current one has ended as `inner`. -/
def resume (s : State) (inner : Layer) : State :=
  match inner.expr? with
  | some e => s.add e
  | none => s

/-- Ends the current layer and goes on with the one around it. If there is none, the state itself is
the error. -/
def leave : State → Except State State
  | ⟨[], current, events⟩ => .error ⟨[], current, events⟩
  | ⟨parent :: outer, inner, events⟩ => .ok (resume ⟨outer, parent, events⟩ inner)

/-- Takes in one token, unless it is a closing parenthesis outside any list. -/
def step (s : State) : Token → Except State State
  | .lparen => .ok s.descend
  | .rparen => s.leave
  | .text text => .ok (s.add (.atom text))

/-- Takes in the tokens up to a stray closing parenthesis, which is reported if others follow it. -/
def consume : State → List Located → State
  | s, [] => s
  | s, ⟨token, offset⟩ :: rest =>
    match s.step token with
    | .ok s => consume s rest
    | .error s => if rest.isEmpty then s else s.note (.strayClose offset rest.length)

@[simp] theorem pending_add (s : State) (e : Expr) : (s.add e).pending = s.pending := by
  unfold add; split <;> rfl

@[simp] theorem pending_resume (s : State) (inner : Layer) :
    (s.resume inner).pending = s.pending := by
  unfold resume; split <;> simp

theorem length_pending_of_leave {s t : State} (h : s.leave = .ok t) :
    t.pending.length + 1 = s.pending.length := by
  unfold leave at h
  split at h <;> cases h
  simp

theorem leave_eq_error_iff {s t : State} : s.leave = .error t ↔ s.pending = [] ∧ t = s := by
  unfold leave
  split <;> simp [eq_comm]

/-- Ends every layer that is around the current one. -/
def closeAll (s : State) : State :=
  match _h : s.leave with
  | .ok t => closeAll t
  | .error s => s
termination_by s.pending.length
decreasing_by have := length_pending_of_leave _h; omega

theorem pending_closeAll (s : State) : s.closeAll.pending = [] := by
  fun_induction closeAll s with
  | case1 s t h ih => exact ih
  | case2 s t h => obtain ⟨hp, rfl⟩ := leave_eq_error_iff.1 h; exact hp

def noteUnclosed (s : State) : State :=
  if s.pending.isEmpty then s else s.note (.unclosedAtEnd s.pending.length)

/-- The expression of a state in which every list is closed; nothing at all is the empty list. -/
def result (s : State) : Logged Expr :=
  ⟨s.current.expr?.getD (.list []), s.events⟩

end State

/-- The expression salvaged from a row of tokens. -/
def parse (tokens : List Located) : Logged Expr :=
  (State.consume {} tokens).noteUnclosed.closeAll.result

end Sexp.Lenient
