import Sexp.Token.Basic
import Sexp.ReadError

/-!
# Parsing exactly one expression

The strict parser accepts a row of tokens that is one expression, or empty, and no deeper than a
limit. It stops at the first token that no such expression could go on with.

* `room_step`: a token never changes the sum of the open lists and the room for more, so that it
  stays at the limit.
-/

namespace Sexp.Strict

/-- A list that is open: where it began and its items so far. -/
structure Frame where
  offset : Nat
  items : Array Expr

/-- The parser between two tokens. -/
structure State where
  /-- The complete expression, once there is one. -/
  root? : Option Expr := none
  /-- The open lists, innermost first. -/
  opened : List Frame := []
  /-- How many more lists may be open. -/
  room : Nat

namespace State

/-- Adds an expression, found at `offset`, to the innermost list or makes it the root. -/
def place : State → Nat → Expr → Except ReadError State
  | ⟨root?, ⟨start, items⟩ :: outer, room⟩, _, e =>
    .ok ⟨root?, ⟨start, items.push e⟩ :: outer, room⟩
  | ⟨some _, [], _⟩, offset, _ => .error (.multipleTopLevel offset)
  | ⟨none, [], room⟩, _, e => .ok ⟨some e, [], room⟩

def descend (limit : Nat) : State → Nat → Except ReadError State
  | ⟨some _, [], _⟩, offset => .error (.multipleTopLevel offset)
  | ⟨_, _, 0⟩, offset => .error (.tooDeep offset limit)
  | ⟨root?, opened, room + 1⟩, offset => .ok ⟨root?, ⟨offset, #[]⟩ :: opened, room⟩

/-- Ends the innermost list at `offset`. -/
def close : State → Nat → Except ReadError State
  | ⟨_, [], _⟩, offset => .error (.unexpectedClose offset)
  | ⟨root?, ⟨_, items⟩ :: outer, room⟩, offset =>
    place ⟨root?, outer, room + 1⟩ offset (.list items.toList)

def step (limit : Nat) (s : State) : Located → Except ReadError State
  | ⟨.lparen, offset⟩ => s.descend limit offset
  | ⟨.rparen, offset⟩ => s.close offset
  | ⟨.text text, offset⟩ => s.place offset (.atom text)

/-- The expression of a row of tokens that ends here; no tokens at all are the empty list. -/
def finish : State → Except ReadError Expr
  | ⟨_, frame :: _, _⟩ => .error (.unclosedList frame.offset)
  | ⟨root?, [], _⟩ => .ok (root?.getD (.list []))

end State

/-- The expression that a row of tokens is, with at most `limit` lists open at a time. -/
def parse (limit : Nat) (tokens : List Located) : Except ReadError Expr :=
  tokens.foldlM (State.step limit) { room := limit } >>= State.finish

/-! ## Room -/

theorem room_place {s t : State} {offset : Nat} {e : Expr} (h : s.place offset e = .ok t) :
    t.opened.length + t.room = s.opened.length + s.room := by
  unfold State.place at h
  split at h <;> cases h <;> rfl

theorem room_step {limit : Nat} {s t : State} {tok : Located} (h : s.step limit tok = .ok t) :
    t.opened.length + t.room = s.opened.length + s.room := by
  unfold State.step at h
  split at h
  · unfold State.descend at h
    split at h <;> cases h
    simp only [List.length_cons]
    omega
  · unfold State.close at h
    split at h
    · cases h
    · have := room_place h
      simp only [List.length_cons] at this ⊢
      omega
  · exact room_place h

end Sexp.Strict
