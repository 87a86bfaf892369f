import Sexp.Expr.Basic

/-!
# Copying expressions

A copy is built from new nodes throughout. The work is a stack of frames, one for each list that is
being copied: the items still to copy and the copies made so far. The bottom frame holds nothing but
the expression itself.

* `copyFrames_eq_completed`: a stack of frames yields what its bottom frame holds once everything
  that remains is copied.
* `copyFrames_singleton`: the bottom frame ends with exactly one copy, equal to the expression.
-/

namespace Sexp.Expr

/-- A list that is being copied. -/
structure CopyFrame where
  remaining : List Expr
  copies : Array Expr

/-- Runs the frames, innermost first, and returns the copies in the bottom frame; none if there is
no frame. -/
def copyFrames (frames : List CopyFrame) : Option (Array Expr) :=
  match frames with
  | [] => none
  | ⟨.atom text :: rest, copies⟩ :: outer =>
    copyFrames (⟨rest, copies.push (.atom text)⟩ :: outer)
  | ⟨.list items :: rest, copies⟩ :: outer =>
    copyFrames (⟨items, #[]⟩ :: ⟨rest, copies⟩ :: outer)
  | [⟨[], copies⟩] => some copies
  | ⟨[], copies⟩ :: ⟨rest, parent⟩ :: outer =>
    copyFrames (⟨rest, parent.push (.list copies.toList)⟩ :: outer)
termination_by totalSize (fun f => sizeOf f.remaining) frames
decreasing_by
  all_goals
    simp only [totalSize_cons, List.cons.sizeOf_spec, List.nil.sizeOf_spec, atom.sizeOf_spec,
      list.sizeOf_spec]
    omega

/-- A copy of an expression: the last copy in the bottom frame, which is the only one. -/
def copy (e : Expr) : Expr :=
  match copyFrames [⟨[e], #[]⟩] with
  | some copies => copies.back?.getD (.list [])
  | none => .list []

/-! ## Copies are equal to what they copy -/

/-- The items that the bottom frame will hold, if each frame is filled up with what remains in it
and then handed to the next one. -/
def completed : List Expr → List CopyFrame → List Expr
  | inner, [] => inner
  | inner, f :: outer => completed (f.copies.toList ++ list inner :: f.remaining) outer

theorem copyFrames_eq_completed (f : CopyFrame) (outer : List CopyFrame) :
    copyFrames (f :: outer) = some (completed (f.copies.toList ++ f.remaining) outer).toArray := by
  generalize hfs : f :: outer = frames
  fun_induction copyFrames frames generalizing f outer with
  | case1 => cases hfs
  | case2 text rest copies outer' ih =>
    cases hfs
    rw [ih _ _ rfl]
    simp
  | case3 items rest copies outer' ih =>
    cases hfs
    rw [ih _ _ rfl]
    simp [completed]
  | case4 copies =>
    cases hfs
    simp [completed]
  | case5 copies rest parent outer' ih =>
    cases hfs
    rw [ih _ _ rfl]
    simp [completed]

theorem copyFrames_singleton (e : Expr) : copyFrames [⟨[e], #[]⟩] = some #[e] := by
  rw [copyFrames_eq_completed]
  simp [completed]

end Sexp.Expr
