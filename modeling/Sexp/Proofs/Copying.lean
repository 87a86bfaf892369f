import Sexp.Expr.Copy
import Mathlib.Logic.Relation

/-!
# Copying, turn by turn

The copier works in turns: it copies an atom, goes into a list, or comes back from one with a copy
of it. Every turn leaves the outcome as it is, and the outcome for an expression is one copy of it.
So the frames never run out before the bottom one is finished, and then it holds that one copy.

* `copyFrames_eq_of_nextFrames?`, `copyFrames_eq_of_reaches`: the turns are those of the copier.
* `exists_reaches_bottom`: the turns end at the bottom frame.
* `copyFrames_of_reaches`, `nextFrames?_eq_none_iff_of_reaches`: the turns for an expression.
* `copy_exact`: what is there at every turn for an expression, and in the end.
-/

namespace Sexp.Expr

/-- One turn of the copier. There is none for a bottom frame in which nothing remains, whose copies
are the outcome. -/
def nextFrames? : List CopyFrame → Option (List CopyFrame)
  | [] => none
  | ⟨.atom text :: rest, copies⟩ :: outer => some (⟨rest, copies.push (.atom text)⟩ :: outer)
  | ⟨.list items :: rest, copies⟩ :: outer => some (⟨items, #[]⟩ :: ⟨rest, copies⟩ :: outer)
  | [⟨[], _⟩] => none
  | ⟨[], copies⟩ :: ⟨rest, parent⟩ :: outer =>
    some (⟨rest, parent.push (.list copies.toList)⟩ :: outer)

/-- Some turns of the copier lead from frames to frames. -/
def CopyReaches : List CopyFrame → List CopyFrame → Prop :=
  Relation.ReflTransGen fun frames next => nextFrames? frames = some next

theorem copyFrames_eq_of_nextFrames? {frames next : List CopyFrame}
    (h : nextFrames? frames = some next) : copyFrames frames = copyFrames next := by
  unfold nextFrames? at h
  split at h <;> cases h <;> rw [copyFrames]

theorem copyFrames_eq_of_reaches {frames next : List CopyFrame} (h : CopyReaches frames next) :
    copyFrames frames = copyFrames next := by
  induction h with
  | refl => rfl
  | tail _ hnext ih => rw [ih, copyFrames_eq_of_nextFrames? hnext]

theorem nextFrames?_eq_none_iff {frames : List CopyFrame} :
    nextFrames? frames = none ↔ frames = [] ∨ ∃ copies, frames = [⟨[], copies⟩] := by
  unfold nextFrames?
  split <;> simp

/-- As long as there are frames, the turns end at the bottom one. -/
theorem exists_reaches_bottom {frames : List CopyFrame} (h : frames ≠ []) :
    ∃ copies, CopyReaches frames [⟨[], copies⟩] := by
  fun_induction copyFrames frames with
  | case1 => exact absurd rfl h
  | case2 text rest copies outer ih =>
    obtain ⟨done, hdone⟩ := ih (List.cons_ne_nil _ _)
    exact ⟨done, hdone.head rfl⟩
  | case3 items rest copies outer ih =>
    obtain ⟨done, hdone⟩ := ih (List.cons_ne_nil _ _)
    exact ⟨done, hdone.head rfl⟩
  | case4 copies => exact ⟨copies, .refl⟩
  | case5 copies rest parent outer ih =>
    obtain ⟨done, hdone⟩ := ih (List.cons_ne_nil _ _)
    exact ⟨done, hdone.head rfl⟩

/-! ## Copies of an expression -/

theorem copy_eq (e : Expr) : e.copy = e := by
  rw [copy, copyFrames_singleton]
  rfl

section
variable {e : Expr} {frames : List CopyFrame}

theorem copyFrames_of_reaches (h : CopyReaches [⟨[e], #[]⟩] frames) :
    copyFrames frames = some #[e] := by
  rw [← copyFrames_eq_of_reaches h, copyFrames_singleton]

theorem ne_nil_of_reaches (h : CopyReaches [⟨[e], #[]⟩] frames) : frames ≠ [] := by
  rintro rfl
  have hcopies := copyFrames_of_reaches h
  rw [copyFrames] at hcopies
  cases hcopies

/-- A bottom frame in which nothing remains holds one copy. -/
theorem eq_of_reaches_bottom {copies : Array Expr}
    (h : CopyReaches [⟨[e], #[]⟩] [⟨[], copies⟩]) : copies = #[e] := by
  have hcopies := copyFrames_of_reaches h
  rw [copyFrames] at hcopies
  exact Option.some.inj hcopies

theorem reaches_bottom (e : Expr) : CopyReaches [⟨[e], #[]⟩] [⟨[], #[e]⟩] := by
  obtain ⟨copies, hcopies⟩ := exists_reaches_bottom (List.cons_ne_nil ⟨[e], #[]⟩ [])
  rwa [eq_of_reaches_bottom hcopies] at hcopies

theorem nextFrames?_eq_none_iff_of_reaches (h : CopyReaches [⟨[e], #[]⟩] frames) :
    nextFrames? frames = none ↔ frames = [⟨[], #[e]⟩] := by
  rw [nextFrames?_eq_none_iff]
  refine ⟨fun hend => ?_, fun hend => .inr ⟨_, hend⟩⟩
  rcases hend with hnil | ⟨copies, rfl⟩
  · exact absurd hnil (ne_nil_of_reaches h)
  · rw [eq_of_reaches_bottom h]

end

/-- A copy is equal to what it is a copy of. The copier comes to a bottom frame that holds just one
copy, and nothing remains in it. On the way there it never runs out of frames, at every turn the
outcome is that copy, and only there it stops. -/
theorem copy_exact (e : Expr) :
    e.copy = e ∧ CopyReaches [⟨[e], #[]⟩] [⟨[], #[e]⟩] ∧
      ∀ frames, CopyReaches [⟨[e], #[]⟩] frames →
        frames ≠ [] ∧ copyFrames frames = some #[e] ∧
          (nextFrames? frames = none ↔ frames = [⟨[], #[e]⟩]) :=
  ⟨copy_eq e, reaches_bottom e, fun _ h =>
    ⟨ne_nil_of_reaches h, copyFrames_of_reaches h, nextFrames?_eq_none_iff_of_reaches h⟩⟩

/-- In the middle of a copy, inside the inner list. -/
theorem copy_exact_nested :
    CopyReaches [⟨[list [atom "a", list [], atom "b"]], #[]⟩]
        [⟨[], #[]⟩, ⟨[atom "b"], #[atom "a"]⟩, ⟨[], #[]⟩] ∧
      copyFrames [⟨[], #[]⟩, ⟨[atom "b"], #[atom "a"]⟩, ⟨[], #[]⟩] =
        some #[list [atom "a", list [], atom "b"]] := by
  have h : CopyReaches [⟨[list [atom "a", list [], atom "b"]], #[]⟩]
      [⟨[], #[]⟩, ⟨[atom "b"], #[atom "a"]⟩, ⟨[], #[]⟩] :=
    .head rfl (.head rfl (.head rfl .refl))
  exact ⟨h, ((copy_exact _).2.2 _ h).2.1⟩

end Sexp.Expr
