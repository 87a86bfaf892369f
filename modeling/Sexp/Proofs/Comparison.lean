import Sexp.Expr.Compare
import Sexp.Expr.Print

/-!
# Comparing in any order

Expressions are alike if they agree node by node, in shape and in texts. The comparison decides this
off a list of pending pairs. Every pair has to agree in the end, so it does not matter which of them
is looked at next: a comparison that lets the parts of a pair wait anywhere among the other pairs
comes to the same answer.

* `alike_iff_eq`: only equal expressions are alike.
* `parts?_eq_none`, `parts?_eq_some`: a pair that is looked at differs at once, or is equal iff its
  parts are.
* `CompareOrder.sameAll_eq_true_iff`, `CompareOrder.same_eq`: in every order, pending pairs compare
  as the same iff each is a pair of equals.
* `same_iff_alike`: the comparison decides which expressions are alike, in every order.
-/

namespace Sexp.Expr

/-- Two expressions are alike: atoms with the same text, or lists of the same length whose items are
alike, place by place. -/
inductive Alike : Expr → Expr → Prop
  | atom (text : String) : Alike (.atom text) (.atom text)
  | list {as bs : List Expr} (length : as.length = bs.length)
      (items : ∀ (i : Nat) (ha : i < as.length) (hb : i < bs.length), Alike as[i] bs[i]) :
      Alike (.list as) (.list bs)

theorem alike_self (e : Expr) : Alike e e := by
  induction e using recOnItems with
  | atom text => exact .atom text
  | list items ih => exact .list rfl fun i hi _ => ih _ (List.getElem_mem hi)

theorem alike_iff_eq {a b : Expr} : Alike a b ↔ a = b := by
  refine ⟨fun h => ?_, fun h => h ▸ alike_self a⟩
  induction h with
  | atom text => rfl
  | list length _ ih => rw [List.ext_getElem length ih]

/-! ## One pair -/

/-- The pairs that a pair leaves to be compared: the items of two lists, nothing for two atoms. A
pair that differs at its roots leaves none. -/
def parts? : Expr × Expr → Option (List (Expr × Expr))
  | (.atom a, .atom b) => if a == b then some [] else none
  | (.list as, .list bs) => if as.length == bs.length then some (as.zip bs) else none
  | (.atom _, .list _) => none
  | (.list _, .atom _) => none

theorem parts?_eq_none {p : Expr × Expr} (h : parts? p = none) : p.1 ≠ p.2 := by
  unfold parts? at h
  split at h
  · simpa using h
  · rename_i as bs
    intro heq
    cases heq
    simp at h
  · simp
  · simp

theorem parts?_eq_some {p : Expr × Expr} {parts : List (Expr × Expr)} (h : parts? p = some parts) :
    p.1 = p.2 ↔ ∀ q ∈ parts, q.1 = q.2 := by
  unfold parts? at h
  split at h
  · simp_all
  · rename_i as bs
    split at h
    · rename_i hlength
      cases h
      rw [forall_mem_zip_iff_eq (by simpa using hlength), list.injEq]
    · cases h
  · cases h
  · cases h

/-- The parts of a pair are smaller than the pair. -/
theorem totalSize_parts?_lt {p : Expr × Expr} {parts : List (Expr × Expr)}
    (h : parts? p = some parts) : totalSize (fun q => sizeOf q.1) parts < sizeOf p.1 := by
  unfold parts? at h
  split at h
  · split at h <;> cases h
    simp only [totalSize_nil, atom.sizeOf_spec]
    omega
  · split at h <;> cases h
    rename_i as bs _
    have := totalSize_zip_le as bs
    simp only [list.sizeOf_spec]
    omega
  · cases h
  · cases h

/-! ## Every order -/

/-- An order of comparing. The pair in front is always the next one, so that the order is a matter
of where its parts are put among the pairs that wait: in front of them, behind them, or mixed with
them in any way. -/
structure CompareOrder where
  place : List (Expr × Expr) → List (Expr × Expr) → List (Expr × Expr)
  perm : ∀ parts rest, (place parts rest).Perm (parts ++ rest)

/-- The order of a stack onto which the parts are pushed one by one: the last items are compared
first. -/
instance : Inhabited CompareOrder :=
  ⟨fun parts rest => parts.reverse ++ rest, fun parts rest => parts.reverse_perm.append_right rest⟩

namespace CompareOrder

/-- Whether the two sides of every pending pair are the same expression, compared in this order. -/
def sameAll (order : CompareOrder) (pending : List (Expr × Expr)) : Bool :=
  match pending with
  | [] => true
  | p :: rest =>
    match _h : parts? p with
    | none => false
    | some parts => order.sameAll (order.place parts rest)
termination_by totalSize (fun p => sizeOf p.1) pending
decreasing_by
  have := totalSize_parts?_lt _h
  rw [totalSize_perm _ (order.perm parts rest), totalSize_append, totalSize_cons]
  omega

def same (order : CompareOrder) (a b : Expr) : Bool :=
  order.sameAll [(a, b)]

theorem sameAll_eq_true_iff (order : CompareOrder) (pending : List (Expr × Expr)) :
    order.sameAll pending = true ↔ ∀ p ∈ pending, p.1 = p.2 := by
  fun_induction order.sameAll pending with
  | case1 => simp
  | case2 p rest h =>
    have := parts?_eq_none h
    simp [this]
  | case3 p rest parts h ih =>
    have hmem : ∀ q, q ∈ order.place parts rest ↔ q ∈ parts ∨ q ∈ rest := fun q => by
      rw [(order.perm parts rest).mem_iff, List.mem_append]
    rw [ih, List.forall_mem_cons, parts?_eq_some h]
    simp only [hmem, or_imp, forall_and]

theorem same_eq (order : CompareOrder) (a b : Expr) : order.same a b = a.same b := by
  rw [Bool.eq_iff_iff, same_eq_true_iff, same, sameAll_eq_true_iff]
  simp

end CompareOrder

/-- The comparison decides which expressions are alike, so that a list never is the same as an atom
that spells it; and it has the same answer in every order. -/
theorem same_iff_alike (a b : Expr) :
    (a.same b = true ↔ Alike a b) ∧
      (∀ items : List Expr, (list items).same (atom (list items).render) = false ∧
        (atom (list items).render).same (list items) = false) ∧
      ∀ order : CompareOrder, order.same a b = a.same b := by
  refine ⟨same_eq_true_iff.trans alike_iff_eq.symm, fun items => ⟨?_, ?_⟩,
    fun order => order.same_eq a b⟩
  · exact same_eq_false_iff.2 Expr.noConfusion
  · exact same_eq_false_iff.2 Expr.noConfusion

end Sexp.Expr
