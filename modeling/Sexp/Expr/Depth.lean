import Sexp.Expr.Basic

/-!
# Nesting depth

An atom has depth 0 and a list one more than its deepest item. The work list carries each pending
expression with the number of lists around it, and the deepest list seen so far is kept beside it.
It is a stack onto which the items of a list are pushed one by one, so the last of them is the next.

* `deepestOf_eq_max`: the work list finds the greatest level that anything pending reaches.
* `depth_eq_height`: the depth is the height by recursion.
-/

namespace Sexp.Expr

/-- Expressions that have `level` lists around them. -/
def atLevel (level : Nat) (es : List Expr) : List (Nat × Expr) :=
  es.map (level, ·)

theorem totalSize_atLevel (level : Nat) (es : List Expr) :
    totalSize (fun p => sizeOf p.2) (atLevel level es) = totalSize sizeOf es := by
  induction es with
  | nil => rfl
  | cons e es ih => simpa [atLevel] using ih

/-- The deepest level among `deepest` and the lists in the pending expressions, each of which comes
with its own level. -/
def deepestOf (pending : List (Nat × Expr)) (deepest : Nat) : Nat :=
  match pending with
  | [] => deepest
  | (_, .atom _) :: rest => deepestOf rest deepest
  | (level, .list items) :: rest =>
    deepestOf ((atLevel (level + 1) items).reverse ++ rest) (max deepest (level + 1))
termination_by totalSize (fun p => sizeOf p.2) pending
decreasing_by
  · simp only [totalSize_cons, atom.sizeOf_spec]
    omega
  · have h := totalSize_lt items
    rw [totalSize_append, totalSize_perm _ (List.reverse_perm _), totalSize_atLevel, totalSize_cons,
      list.sizeOf_spec]
    omega

/-- The nesting depth. -/
def depth (e : Expr) : Nat :=
  deepestOf [(0, e)] 0

/-! ## The recursive description -/

mutual
/-- The nesting depth by recursion: 0 for an atom, one more than the highest item for a list. -/
def height : Expr → Nat
  | atom _ => 0
  | list items => heightAll items + 1

/-- The greatest height among several expressions. -/
def heightAll : List Expr → Nat
  | [] => 0
  | e :: es => max e.height (heightAll es)
end

/-- The level that the lists of a pending expression reach, 0 if it is an atom. -/
def reach : Nat × Expr → Nat
  | (_, .atom _) => 0
  | (level, .list items) => level + (list items).height

/-- The greatest reach among the pending expressions. -/
def reachAll : List (Nat × Expr) → Nat
  | [] => 0
  | p :: ps => max (reach p) (reachAll ps)

theorem reachAll_append (ps qs : List (Nat × Expr)) :
    reachAll (ps ++ qs) = max (reachAll ps) (reachAll qs) := by
  induction ps with
  | nil => simp [reachAll]
  | cons p ps ih => simp only [List.cons_append, reachAll, ih]; omega

theorem reachAll_reverse (ps : List (Nat × Expr)) : reachAll ps.reverse = reachAll ps := by
  induction ps with
  | nil => rfl
  | cons p ps ih =>
    rw [List.reverse_cons, reachAll_append, ih]
    simp only [reachAll]
    omega

theorem max_reachAll_atLevel (level : Nat) (es : List Expr) :
    max level (reachAll (atLevel level es)) = level + heightAll es := by
  induction es with
  | nil => simp [reachAll, atLevel, heightAll]
  | cons e es ih =>
    simp only [atLevel, List.map_cons, reachAll] at ih ⊢
    cases e with
    | atom text => simp only [reach, heightAll, height]; omega
    | list items => simp only [reach, heightAll]; omega

theorem deepestOf_eq_max (pending : List (Nat × Expr)) (deepest : Nat) :
    deepestOf pending deepest = max deepest (reachAll pending) := by
  fun_induction deepestOf pending deepest with
  | case1 => simp [reachAll]
  | case2 deepest level text rest ih => simp only [ih, reachAll, reach]; omega
  | case3 deepest level items rest ih =>
    have h := max_reachAll_atLevel (level + 1) items
    simp only [ih, reachAll_append, reachAll_reverse, reachAll, reach, height]
    omega

theorem depth_eq_height (e : Expr) : e.depth = e.height := by
  cases e <;> simp [depth, deepestOf_eq_max, reachAll, reach, height]

end Sexp.Expr
