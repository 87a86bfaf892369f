import Sexp.Token.Basic

/-!
# The token queue

Tokens wait in a first-in-first-out queue with two columns, one of tokens and one of offsets. The
columns are filled and emptied together (`Queue.Aligned`); if the column of offsets ever ran short,
a token would be handed out with the offset 0.

* `Aligned.toList_push`: a pushed token comes last.
* `Aligned.pop`, `pop?_eq_none_iff`: a popped token was the first, and only the empty queue has
  none.
* `toList_ofList`: a queue holds the tokens that it was made of.
-/

namespace Sexp

/-- A queue of tokens with their offsets. -/
structure Queue where
  tokens : Std.Queue Token := .empty
  offsets : Std.Queue Nat := .empty

namespace Queue

/-- The entries of a column, oldest first. -/
def column {α : Type} (q : Std.Queue α) : List α :=
  q.dList ++ q.eList.reverse

def empty : Queue := ⟨.empty, .empty⟩

/-- Lets a token wait behind all others. -/
def push (q : Queue) (t : Located) : Queue :=
  ⟨q.tokens.enqueue t.token, q.offsets.enqueue t.offset⟩

/-- The oldest token and the queue without it. -/
def pop? (q : Queue) : Option (Located × Queue) :=
  match q.tokens.dequeue? with
  | none => none
  | some (token, tokens) =>
    match q.offsets.dequeue? with
    | none => some (⟨token, 0⟩, ⟨tokens, q.offsets⟩)
    | some (offset, offsets) => some (⟨token, offset⟩, ⟨tokens, offsets⟩)

def size (q : Queue) : Nat :=
  q.tokens.dList.length + q.tokens.eList.length

def isEmpty (q : Queue) : Bool :=
  q.size == 0

/-- Everything that waits, oldest first. -/
def toList (q : Queue) : List Located :=
  List.zipWith Located.mk (column q.tokens)
    (column q.offsets ++ List.replicate (column q.tokens).length 0)

def ofList (ts : List Located) : Queue :=
  ts.foldl push empty

/-- Takes up to `n` tokens out, after those in `out`. -/
def popMany (n : Nat) (q : Queue) (out : Array Located) : Array Located × Queue :=
  match n with
  | 0 => (out, q)
  | n + 1 =>
    match q.pop? with
    | none => (out, q)
    | some (t, q) => popMany n q (out.push t)

/-- Both columns as they are shown in dumps. -/
def dump (q : Queue) : String :=
  "Tokens \x7b offset: [" ++ ", ".intercalate ((column q.offsets).map toString) ++ "], toks: [" ++
    ", ".intercalate ((column q.tokens).map Token.dump) ++ "] \x7d"

/-! ## Columns -/

@[simp] theorem column_enqueue {α : Type} (a : α) (q : Std.Queue α) :
    column (q.enqueue a) = column q ++ [a] := by
  simp [column, Std.Queue.enqueue]

theorem column_of_dequeue? {α : Type} {q r : Std.Queue α} {a : α}
    (h : q.dequeue? = some (a, r)) : column q = a :: column r := by
  unfold Std.Queue.dequeue? at h
  split at h
  · cases h
    simp [column, *]
  · split at h <;> cases h
    simp [column, *]

theorem dequeue?_eq_none_iff {α : Type} {q : Std.Queue α} :
    q.dequeue? = none ↔ column q = [] := by
  refine ⟨fun h => ?_, fun h => ?_⟩
  · unfold Std.Queue.dequeue? at h
    split at h
    · cases h
    · split at h
      · simp [column, *]
      · cases h
  · cases hd : q.dequeue? with
    | none => rfl
    | some p => simp [column_of_dequeue? (a := p.1) (r := p.2) hd] at h

/-! ## The columns stay in step -/

/-- Every token has its offset. -/
def Aligned (q : Queue) : Prop :=
  (column q.tokens).length = (column q.offsets).length

theorem aligned_empty : empty.Aligned := rfl

theorem Aligned.push {q : Queue} (h : q.Aligned) (t : Located) : (q.push t).Aligned := by
  simpa [Aligned, Queue.push] using h

theorem Aligned.toList_eq {q : Queue} (h : q.Aligned) :
    q.toList = List.zipWith Located.mk (column q.tokens) (column q.offsets) := by
  simpa [toList] using @List.zipWith_append _ _ _ Located.mk (column q.tokens) []
    (column q.offsets) (List.replicate (column q.tokens).length 0) h

theorem Aligned.toList_push {q : Queue} (h : q.Aligned) (t : Located) :
    (q.push t).toList = q.toList ++ [t] := by
  rw [(h.push t).toList_eq, h.toList_eq]
  simp only [Queue.push, column_enqueue]
  rw [List.zipWith_append h]
  rfl

theorem Aligned.pop {q r : Queue} {t : Located} (h : q.Aligned) (hp : q.pop? = some (t, r)) :
    r.Aligned ∧ q.toList = t :: r.toList := by
  unfold Queue.pop? at hp
  split at hp
  · cases hp
  · rename_i token tokens ht
    have hts := column_of_dequeue? ht
    split at hp
    · rename_i ho
      simp [Aligned, hts, dequeue?_eq_none_iff.1 ho] at h
    · rename_i offset offsets ho
      have hos := column_of_dequeue? ho
      cases hp
      have hr : (⟨tokens, offsets⟩ : Queue).Aligned := by simpa [Aligned, hts, hos] using h
      refine ⟨hr, ?_⟩
      rw [h.toList_eq, hr.toList_eq, hts, hos]
      rfl

theorem pop?_eq_none_iff {q : Queue} : q.pop? = none ↔ q.toList = [] := by
  have hlist : q.toList = [] ↔ column q.tokens = [] := by
    rw [← List.length_eq_zero_iff, ← List.length_eq_zero_iff]
    simp only [toList, List.length_zipWith, List.length_append, List.length_replicate]
    omega
  rw [hlist, ← dequeue?_eq_none_iff]
  unfold Queue.pop?
  split
  · simp_all
  · split <;> simp_all

theorem size_eq_length (q : Queue) : q.size = q.toList.length := by
  simp only [size, toList, column, List.length_zipWith, List.length_append, List.length_replicate,
    List.length_reverse]
  omega

theorem Aligned.foldl_push {q : Queue} (h : q.Aligned) (ts : List Located) :
    (ts.foldl Queue.push q).Aligned ∧ (ts.foldl Queue.push q).toList = q.toList ++ ts := by
  induction ts generalizing q with
  | nil => simpa using h
  | cons t ts ih =>
    obtain ⟨ha, hl⟩ := ih (h.push t)
    exact ⟨ha, by rw [List.foldl_cons, hl, h.toList_push]; simp⟩

theorem aligned_ofList (ts : List Located) : (ofList ts).Aligned :=
  (aligned_empty.foldl_push ts).1

theorem toList_ofList (ts : List Located) : (ofList ts).toList = ts :=
  (aligned_empty.foldl_push ts).2

end Queue

end Sexp
