import Sexp.Proofs.Reading

/-!
# Offsets are carried along

The parsers look at tokens and never at offsets. Where the offsets of a row of tokens are changed by
any function, a parser comes to the same expression, or to the same error with its offset changed by
that function.

* `Strict.step_mapOffset`, `Strict.foldlM_step_mapOffset`: a step and a run of the strict parser.
* `Reader.parse_mapOffset`: every reader carries offsets along.
* `lexemes_add`: the tokens of a text that begins later.
-/

namespace Sexp

/-- The token, with its offset changed. -/
def Located.mapOffset (f : Nat → Nat) (tok : Located) : Located :=
  ⟨tok.token, f tok.offset⟩

/-- An error of the same kind and limit, with its offset changed. -/
def ReadError.mapOffset (f : Nat → Nat) : ReadError → ReadError
  | unexpectedClose offset => unexpectedClose (f offset)
  | unclosedList offset => unclosedList (f offset)
  | multipleTopLevel offset => multipleTopLevel (f offset)
  | tooDeep offset limit => tooDeep (f offset) limit

/-! ## The strict parser -/

namespace Strict

variable (f : Nat → Nat)

def State.mapOffset (s : State) : State :=
  { s with opened := s.opened.map fun frame => ⟨f frame.offset, frame.items⟩ }

theorem place_mapOffset (s : State) (offset : Nat) (e : Expr) :
    (s.mapOffset f).place (f offset) e =
      ((s.place offset e).map (State.mapOffset f)).mapError (ReadError.mapOffset f) := by
  obtain ⟨root?, opened, room⟩ := s
  cases root? <;> cases opened <;> rfl

theorem descend_mapOffset (limit : Nat) (s : State) (offset : Nat) :
    (s.mapOffset f).descend limit (f offset) =
      ((s.descend limit offset).map (State.mapOffset f)).mapError (ReadError.mapOffset f) := by
  obtain ⟨root?, opened, room⟩ := s
  cases root? <;> cases opened <;> cases room <;> rfl

theorem close_mapOffset (s : State) (offset : Nat) :
    (s.mapOffset f).close (f offset) =
      ((s.close offset).map (State.mapOffset f)).mapError (ReadError.mapOffset f) := by
  obtain ⟨root?, opened, room⟩ := s
  cases opened with
  | nil => rfl
  | cons frame outer => exact place_mapOffset f ⟨root?, outer, room + 1⟩ offset _

/-- A step carries offsets along, whether it succeeds or fails. -/
theorem step_mapOffset (limit : Nat) (s : State) (tok : Located) :
    (s.mapOffset f).step limit (tok.mapOffset f) =
      ((s.step limit tok).map (State.mapOffset f)).mapError (ReadError.mapOffset f) := by
  obtain ⟨token, offset⟩ := tok
  cases token with
  | lparen => exact descend_mapOffset f limit s offset
  | rparen => exact close_mapOffset f s offset
  | text text => exact place_mapOffset f s offset (.atom text)

theorem foldlM_step_mapOffset (limit : Nat) (s : State) (ts : List Located) :
    (ts.map (Located.mapOffset f)).foldlM (State.step limit) (s.mapOffset f) =
      ((ts.foldlM (State.step limit) s).map (State.mapOffset f)).mapError
        (ReadError.mapOffset f) := by
  induction ts generalizing s with
  | nil => rfl
  | cons tok ts ih =>
    rw [List.map_cons, List.foldlM_cons, List.foldlM_cons, step_mapOffset]
    cases s.step limit tok with
    | error err => rfl
    | ok r => exact ih r

theorem finish_mapOffset (s : State) :
    (s.mapOffset f).finish = s.finish.mapError (ReadError.mapOffset f) := by
  obtain ⟨root?, opened, room⟩ := s
  cases opened <;> rfl

theorem parse_mapOffset (limit : Nat) (ts : List Located) :
    parse limit (ts.map (Located.mapOffset f)) =
      (parse limit ts).mapError (ReadError.mapOffset f) := by
  have hrun := foldlM_step_mapOffset f limit { room := limit } ts
  have hinit : State.mapOffset f { room := limit } = { room := limit } := rfl
  rw [hinit] at hrun
  rw [parse, hrun, parse]
  cases ts.foldlM (State.step limit) { room := limit } with
  | error err => rfl
  | ok s => exact finish_mapOffset f s

end Strict

/-! ## Readers -/

theorem map_token_mapOffset (f : Nat → Nat) (ts : List Located) :
    (ts.map (Located.mapOffset f)).map Located.token = ts.map Located.token := by
  rw [List.map_map]
  rfl

theorem Reader.parse_mapOffset (r : Reader) (f : Nat → Nat) (ts : List Located) :
    r.parse (ts.map (Located.mapOffset f)) = (r.parse ts).mapError (ReadError.mapOffset f) := by
  unfold parse
  split
  · exact Strict.parse_mapOffset f r.maxDepth ts
  · have hvalue : (Lenient.parse (ts.map (Located.mapOffset f))).value = (Lenient.parse ts).value :=
      Lenient.parse_value_congr (congrArg beforeStray (map_token_mapOffset f ts))
    rw [hvalue]
    rfl

/-! ## The offsets of a text -/

/-- Where a text begins later, its tokens do. -/
theorem lexemes_add (keep : Bool) (offset n : Nat) (cs : List Char) :
    lexemes keep (offset + n) cs = (lexemes keep offset cs).map (Located.mapOffset (· + n)) := by
  induction cs using lexInduction generalizing offset with
  | nil => simp
  | space cs ih => rw [lexemes_space, lexemes_space, Nat.add_right_comm, ih]
  | token t rest ht ih =>
    rw [lexemes_token ht, lexemes_token ht, Nat.add_right_comm, ih]
    split <;> rfl

end Sexp
