import Sexp.Expr.Basic

/-!
# Equality of expressions

Two expressions are compared pair by pair, off a list of pending pairs, so that the comparison copes
with any depth of nesting. The order of the pairs is immaterial, because the answer is yes only if
every pair agrees.

* `sameAll_eq_true_iff`: pending pairs compare as the same iff each is a pair of equals.
* `same_eq_true_iff`: the comparison decides equality.
-/

namespace Sexp.Expr

theorem totalSize_zip_le (as bs : List Expr) :
    totalSize (fun p => sizeOf p.1) (as.zip bs) ≤ sizeOf as := by
  induction as generalizing bs with
  | nil => simp
  | cons a as ih =>
    cases bs with
    | nil => simp
    | cons b bs =>
      have := ih bs
      simp only [List.zip_cons_cons, totalSize_cons, List.cons.sizeOf_spec]
      omega

/-- Whether the two sides of every pending pair are the same expression. -/
def sameAll (pending : List (Expr × Expr)) : Bool :=
  match pending with
  | [] => true
  | (.atom a, .atom b) :: rest => if a == b then sameAll rest else false
  | (.list as, .list bs) :: rest =>
    if as.length == bs.length then sameAll (as.zip bs ++ rest) else false
  | (.atom _, .list _) :: _ => false
  | (.list _, .atom _) :: _ => false
termination_by totalSize (fun p => sizeOf p.1) pending
decreasing_by
  · simp only [totalSize_cons, atom.sizeOf_spec]
    omega
  · have h := totalSize_zip_le as bs
    simp only [totalSize_append, totalSize_cons, list.sizeOf_spec]
    omega

/-- Whether two expressions are the same. -/
def same (a b : Expr) : Bool :=
  sameAll [(a, b)]

/-! ## The comparison decides equality -/

theorem forall_mem_zip_iff_eq {as bs : List Expr} (h : as.length = bs.length) :
    (∀ p ∈ as.zip bs, p.1 = p.2) ↔ as = bs := by
  induction as generalizing bs with
  | nil => cases bs <;> simp_all
  | cons a as ih =>
    cases bs with
    | nil => simp at h
    | cons b bs => simp_all

theorem sameAll_eq_true_iff (pending : List (Expr × Expr)) :
    sameAll pending = true ↔ ∀ p ∈ pending, p.1 = p.2 := by
  fun_induction sameAll pending with
  | case1 => simp
  | case2 a b rest h ih => simp_all
  | case3 a b rest h => simp_all
  | case4 as bs rest h ih =>
    have hl : as.length = bs.length := by simpa using h
    rw [ih]
    simp only [List.mem_append, List.mem_cons, or_imp, forall_and, forall_eq, list.injEq,
      forall_mem_zip_iff_eq hl]
  | case5 as bs rest h =>
    simp only [List.mem_cons, forall_eq_or_imp, list.injEq, Bool.false_eq_true, false_iff,
      not_and]
    intro hab
    simp [hab] at h
  | case6 => simp
  | case7 => simp

theorem same_eq_true_iff {a b : Expr} : a.same b = true ↔ a = b := by
  simp [same, sameAll_eq_true_iff]

theorem same_eq_false_iff {a b : Expr} : a.same b = false ↔ a ≠ b := by
  rw [← Bool.not_eq_true, same_eq_true_iff]

instance : DecidableEq Expr := fun a b => decidable_of_iff _ (same_eq_true_iff (a := a) (b := b))

end Sexp.Expr
