import Sexp.Proofs.ScanRun

/-!
# Runs of a queue

A queue begins empty or with the tokens of a text. Whatever is then pushed, popped or taken by an
iteration that may stop early, its columns are the two halves of one row of tokens: those that were
put in and have not been handed out, in the order in which they came.

* `Aligned.columns`: the columns of a queue that is in step.
* `Aligned.use`, `Aligned.after`: one use of a queue, and several.
* `scan_eq_ofList`: the queue of a text comes about by pushing its tokens, one after another.
* `queue_history`: what is there, and what can be had, between any two uses.
-/

namespace Sexp

namespace Queue

/-- What can be done with a queue. -/
inductive Use where
  | push (t : Located)
  /-- Takes one token out, as every step of an iteration does. -/
  | pop
  /-- An iteration that stops after `n` tokens, or when there are no more. -/
  | take (n : Nat)

/-- The token that a use puts in. -/
def Use.pushed : Use → List Located
  | push t => [t]
  | pop => []
  | take _ => []

/-- The tokens that a use hands out, and the queue after it. -/
def use (q : Queue) : Use → List Located × Queue
  | .push t => ([], q.push t)
  | .pop =>
    match q.pop? with
    | none => ([], q)
    | some (t, r) => ([t], r)
  | .take n =>
    let (out, r) := q.popMany n #[]
    (out.toList, r)

/-- The queue after some uses. -/
def after (q : Queue) (uses : List Use) : Queue :=
  uses.foldl (fun q u => (q.use u).2) q

/-- All tokens that some uses hand out. -/
def handedOut (q : Queue) : List Use → List Located
  | [] => []
  | u :: uses => (q.use u).1 ++ handedOut (q.use u).2 uses

/-- Where a queue comes from. -/
inductive Origin where
  | new
  | scanned (keepTrailing : Bool) (src : String)

/-- The queue that is there at first. -/
def Origin.queue : Origin → Queue
  | new => .empty
  | scanned keepTrailing src => (scan keepTrailing src).value

/-- The tokens that are in it, read off the text. -/
def Origin.tokens : Origin → List Located
  | new => []
  | scanned keepTrailing src => lexemes keepTrailing 0 src.toList

/-- There is a token but no offset, so that a pop hands the token out with the offset 0. -/
def Short (q : Queue) : Prop :=
  q.tokens.dequeue? ≠ none ∧ q.offsets.dequeue? = none

/-! ## Queues that are in step -/

section
variable {q : Queue} (h : q.Aligned)
include h

/-- The columns are the two halves of the tokens that wait. -/
theorem Aligned.columns : column q.tokens = q.toList.map Located.token ∧
    column q.offsets = q.toList.map Located.offset := by
  have hzip : q.toList =
      ((column q.tokens).zip (column q.offsets)).map fun p => ⟨p.1, p.2⟩ := by
    rw [h.toList_eq, List.zip, List.map_zipWith]
  rw [hzip, List.map_map, List.map_map]
  exact ⟨(List.map_fst_zip (Nat.le_of_eq h)).symm, (List.map_snd_zip (Nat.le_of_eq h.symm)).symm⟩

theorem Aligned.not_short : ¬ q.Short := by
  intro ⟨htoken, hoffset⟩
  have hoffsets := dequeue?_eq_none_iff.1 hoffset
  have htokens : column q.tokens = [] := by
    rwa [← List.length_eq_zero_iff, h, List.length_eq_zero_iff]
  exact htoken (dequeue?_eq_none_iff.2 htokens)

theorem Aligned.pop?_map_fst : q.pop?.map Prod.fst = q.toList.head? := by
  cases hpop : q.pop? with
  | none => rw [pop?_eq_none_iff.1 hpop]; rfl
  | some p => rw [(h.pop hpop).2]; rfl

end

theorem isEmpty_eq (q : Queue) : q.isEmpty = q.toList.isEmpty := by
  rw [isEmpty, size_eq_length]
  cases q.toList <;> rfl

/-- An iteration takes the oldest tokens and leaves the others. -/
theorem Aligned.popMany {q : Queue} (h : q.Aligned) (n : Nat) (out : Array Located) :
    (q.popMany n out).1.toList = out.toList ++ q.toList.take n ∧
      (q.popMany n out).2.toList = q.toList.drop n ∧ (q.popMany n out).2.Aligned := by
  induction n generalizing q out with
  | zero => exact ⟨by simp [Queue.popMany], rfl, h⟩
  | succ n ih =>
    rw [Queue.popMany]
    cases hpop : q.pop? with
    | none =>
      have hnil := pop?_eq_none_iff.1 hpop
      exact ⟨by simp [hnil], by simp [hnil], h⟩
    | some p =>
      obtain ⟨halign, hlist⟩ := h.pop hpop
      obtain ⟨hout, hrest, hr⟩ := ih halign (out.push p.1)
      exact ⟨by rw [hout, hlist]; simp, by rw [hrest, hlist]; rfl, hr⟩

/-! ## Using a queue -/

/-- A use keeps the columns in step. What was in the queue before it and what it puts in is what it
hands out and what is in the queue after it. -/
theorem Aligned.use {q : Queue} (h : q.Aligned) (u : Use) :
    (q.use u).2.Aligned ∧ q.toList ++ u.pushed = (q.use u).1 ++ (q.use u).2.toList := by
  cases u with
  | push t => exact ⟨h.push t, (h.toList_push t).symm⟩
  | pop =>
    rw [Queue.use, Use.pushed, List.append_nil]
    cases hpop : q.pop? with
    | none => exact ⟨h, rfl⟩
    | some p => exact h.pop hpop
  | take n =>
    obtain ⟨hout, hrest, hr⟩ := h.popMany n #[]
    refine ⟨hr, ?_⟩
    rw [Use.pushed, List.append_nil]
    simp only [Queue.use]
    rw [hout, hrest, List.nil_append, List.take_append_drop]

theorem Aligned.after {q : Queue} (h : q.Aligned) (uses : List Use) :
    (q.after uses).Aligned ∧ q.toList ++ uses.flatMap Use.pushed =
      q.handedOut uses ++ (q.after uses).toList := by
  induction uses generalizing q with
  | nil => exact ⟨h, List.append_nil _⟩
  | cons u uses ih =>
    obtain ⟨hu, hlist⟩ := h.use u
    obtain ⟨halign, hrest⟩ := ih hu
    refine ⟨halign, ?_⟩
    calc q.toList ++ (u :: uses).flatMap Use.pushed
      _ = (q.toList ++ u.pushed) ++ uses.flatMap Use.pushed := by simp
      _ = (q.use u).1 ++ ((q.use u).2.toList ++ uses.flatMap Use.pushed) := by
        rw [hlist, List.append_assoc]
      _ = q.handedOut (u :: uses) ++ (q.after (u :: uses)).toList := by
        rw [hrest, handedOut, List.append_assoc]; rfl

/-! ## The queue of a text

Queues that hold the same tokens can still differ, so it is not enough which tokens are found. -/

/-- The queue comes about by pushing alone. -/
def Filled (q : Queue) : Prop :=
  ∃ ts, q = ofList ts

theorem Filled.push {q : Queue} (h : q.Filled) (t : Located) : (q.push t).Filled := by
  obtain ⟨ts, rfl⟩ := h
  exact ⟨ts ++ [t], by simp [ofList]⟩

theorem Filled.eq_ofList {q : Queue} (h : q.Filled) : q = ofList q.toList := by
  obtain ⟨ts, rfl⟩ := h
  rw [toList_ofList]

end Queue

namespace Scanner

theorem filled_endBlock {s : Scanner} (h : s.found.Filled) : s.endBlock.found.Filled := by
  unfold endBlock
  split
  · exact h.push _
  · exact h

theorem filled_step {s : Scanner} (h : s.found.Filled) (c : Char) : (s.step c).found.Filled := by
  have hend := filled_endBlock h
  have hextend : (s.extend c).found = s.found := by unfold extend; split <;> rfl
  unfold step accept
  split_ifs
  · exact hend.push _
  · exact hend.push _
  · exact hend
  · rwa [← hextend] at h

theorem filled_foldl {s : Scanner} (h : s.found.Filled) (cs : List Char) :
    (cs.foldl step s).found.Filled := by
  induction cs generalizing s with
  | nil => exact h
  | cons c cs ih => exact ih (filled_step h c)

theorem filled_finish {s : Scanner} (h : s.found.Filled) (keep : Bool) :
    (s.finish keep).value.Filled := by
  cases keep with
  | true => exact filled_endBlock h
  | false =>
    obtain ⟨offset, block?, found⟩ := s
    cases block? <;> exact h

end Scanner

/-- The queue of a text is the one that its tokens are pushed to, one after another. -/
theorem scan_eq_ofList (keep : Bool) (src : String) :
    (scan keep src).value = Queue.ofList (lexemes keep 0 src.toList) := by
  have hfilled : (scan keep src).value.Filled :=
    Scanner.filled_finish (Scanner.filled_foldl ⟨[], rfl⟩ _) keep
  rw [← toList_scan]
  exact hfilled.eq_ofList

namespace Queue

theorem Origin.queue_eq (made : Origin) : made.queue = ofList made.tokens := by
  cases made with
  | new => rfl
  | scanned keep src => exact scan_eq_ofList keep src

/-- Whatever is done with a queue, what was put into it, beginning with the tokens of the text that
it was made of, is what it has handed out and what waits in it, in this order. Its columns are the
two halves of what waits, and its size is the number of that. A pop gives the oldest token that
waits with the offset that came with it, and nothing if none waits; an iteration gives the oldest
ones; and wherever it stops, no offset is missing. -/
theorem queue_history (made : Origin) (uses : List Use) :
    let q := made.queue.after uses
    made.queue = ofList made.tokens ∧
      made.tokens ++ uses.flatMap Use.pushed = made.queue.handedOut uses ++ q.toList ∧
      column q.tokens = q.toList.map Located.token ∧
      column q.offsets = q.toList.map Located.offset ∧
      q.size = q.toList.length ∧ q.isEmpty = q.toList.isEmpty ∧
      q.pop?.map Prod.fst = q.toList.head? ∧
      ∀ n, (q.popMany n #[]).1.toList = q.toList.take n ∧ ¬ (q.popMany n #[]).2.Short := by
  intro q
  have hmade : made.queue.Aligned := by
    rw [made.queue_eq]
    exact aligned_ofList _
  have htokens : made.queue.toList = made.tokens := by rw [made.queue_eq, toList_ofList]
  obtain ⟨hq, hlist⟩ := hmade.after uses
  rw [htokens] at hlist
  -- how the run came to `q` no longer matters: the rest holds of every queue that is in step
  refine ⟨made.queue_eq, hlist, hq.columns.1, hq.columns.2, size_eq_length q, isEmpty_eq q,
    hq.pop?_map_fst, fun n => ?_⟩
  obtain ⟨hout, -, hr⟩ := hq.popMany n #[]
  exact ⟨hout, hr.not_short⟩

/-- A pop from an empty queue gives nothing and does no harm. -/
example : empty.handedOut [.pop, .push ⟨.lparen, 7⟩, .take 2, .pop, .push ⟨.rparen, 9⟩, .pop] =
    [⟨.lparen, 7⟩, ⟨.rparen, 9⟩] := rfl

end Queue

end Sexp
