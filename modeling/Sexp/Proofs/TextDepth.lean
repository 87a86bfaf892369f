import Sexp.Expr.Depth
import Sexp.Proofs.Layout
import Mathlib.Order.Bounds.Image

/-!
# The depth of an expression in its text

The depth of an expression can be read off its canonical text, as long as its atoms hold no
parentheses: it is the greatest number of parentheses that are open at a place of the text. The
proof goes by the pieces of the text. For each of them it keeps the balance at the end and the
greatest balance of a front, and both are known of two pieces together once they are known of each.

* `depth_list`: the depth of a list by the depths of its items.
* `Text.balances_append`: the balances of the fronts of two pieces together.
* `peaks_chars`: the canonical text closes what it opens, and its greatest balance is the height.
* `depth_exact`: the depth by recursion and as the greatest balance.
-/

namespace Sexp

namespace Text

/-- The number of opening parentheses less the number of closing ones. -/
def balance (cs : List Char) : Int :=
  cs.count '(' - cs.count ')'

/-- The balances of all fronts of a text, the empty one and the whole included. -/
def balances (cs : List Char) : Set Int :=
  {k | ∃ front, front <+: cs ∧ k = balance front}

/-! ## Pieces of a text -/

theorem balance_append (as bs : List Char) : balance (as ++ bs) = balance as + balance bs := by
  simp only [balance, List.count_append]
  omega

theorem prefix_append_iff {α : Type} {front as bs : List α} :
    front <+: as ++ bs ↔ front <+: as ∨ ∃ mid, mid <+: bs ∧ front = as ++ mid := by
  refine ⟨fun h => ?_, fun h => ?_⟩
  · rcases List.prefix_or_prefix_of_prefix h (List.prefix_append as bs) with has | ⟨mid, rfl⟩
    · exact .inl has
    · exact .inr ⟨mid, (List.prefix_append_right_inj as).1 h, rfl⟩
  · rcases h with has | ⟨mid, hmid, rfl⟩
    · exact has.trans (List.prefix_append as bs)
    · exact (List.prefix_append_right_inj as).2 hmid

/-- A front of two pieces is one of the first, or the first with a front of the second. -/
theorem balances_append (as bs : List Char) :
    balances (as ++ bs) = balances as ∪ (balance as + ·) '' balances bs := by
  ext k
  constructor
  · rintro ⟨front, hfront, rfl⟩
    rcases prefix_append_iff.1 hfront with has | ⟨mid, hmid, rfl⟩
    · exact .inl ⟨front, has, rfl⟩
    · exact .inr ⟨balance mid, ⟨mid, hmid, rfl⟩, (balance_append as mid).symm⟩
  · rintro (⟨front, has, rfl⟩ | ⟨_, ⟨mid, hmid, rfl⟩, rfl⟩)
    · exact ⟨front, prefix_append_iff.2 (.inl has), rfl⟩
    · exact ⟨as ++ mid, prefix_append_iff.2 (.inr ⟨mid, hmid, rfl⟩), (balance_append as mid).symm⟩

theorem isGreatest_balances_append {as bs : List Char} {m n : Int}
    (has : IsGreatest (balances as) m) (hbs : IsGreatest (balances bs) n) :
    IsGreatest (balances (as ++ bs)) (max m (balance as + n)) := by
  have hshift : Monotone (balance as + ·) := fun i j h => Int.add_le_add_left h (balance as)
  rw [balances_append]
  exact has.union (hshift.map_isGreatest hbs)

/-- A text that closes in the end what it opens, with `peak` parentheses open at the most. -/
structure Peaks (cs : List Char) (peak : Nat) : Prop where
  closed : balance cs = 0
  greatest : IsGreatest (balances cs) (peak : Int)

namespace Peaks

theorem append {as bs : List Char} {m n : Nat} (has : Peaks as m) (hbs : Peaks bs n) :
    Peaks (as ++ bs) (max m n) := by
  refine ⟨by rw [balance_append, has.closed, hbs.closed]; rfl, ?_⟩
  have h := isGreatest_balances_append has.greatest hbs.greatest
  have hmax : max (m : Int) n = (max m n : Nat) := by omega
  rwa [has.closed, Int.zero_add, hmax] at h

/-- A text without parentheses has balance 0 everywhere. -/
theorem plain {cs : List Char} (hopening : '(' ∉ cs) (hclosing : ')' ∉ cs) : Peaks cs 0 := by
  have hfront : ∀ front, front <+: cs → balance front = 0 := by
    intro front h
    rw [balance, List.count_eq_zero_of_not_mem fun hmem => hopening (h.subset hmem),
      List.count_eq_zero_of_not_mem fun hmem => hclosing (h.subset hmem)]
    rfl
  refine ⟨hfront cs (List.prefix_refl cs), ⟨[], List.nil_prefix, rfl⟩, ?_⟩
  rintro _ ⟨front, h, rfl⟩
  rw [hfront front h]
  rfl

/-- A pair of parentheses around a text adds one to every balance in it. -/
theorem enclose {cs : List Char} {n : Nat} (h : Peaks cs n) :
    Peaks ('(' :: (cs ++ [')'])) (n + 1) := by
  have hopening : IsGreatest (balances ['(']) 1 := by
    refine ⟨⟨['('], List.prefix_refl _, rfl⟩, ?_⟩
    rintro _ ⟨front, hfront, rfl⟩
    have := hfront.count_le '('
    simp only [balance, List.count_singleton_self] at this ⊢
    omega
  have hclosing : IsGreatest (balances [')']) 0 := by
    refine ⟨⟨[], List.nil_prefix, rfl⟩, ?_⟩
    rintro _ ⟨front, hfront, rfl⟩
    have := hfront.count_le '('
    have hnone : [')'].count '(' = 0 := rfl
    simp only [balance]
    omega
  have hone : balance ['('] = 1 := rfl
  have hmax : max (1 : Int) (1 + max (n : Int) (0 + 0)) = (n + 1 : Nat) := by omega
  have hgreatest := isGreatest_balances_append hopening
    (isGreatest_balances_append h.greatest hclosing)
  rw [h.closed, hone, hmax] at hgreatest
  refine ⟨?_, hgreatest⟩
  rw [← List.singleton_append, balance_append, balance_append, h.closed]
  rfl

end Peaks

end Text

namespace Expr

open Text (Peaks)

/-! ## The canonical text -/

theorem heightAll_eq_foldr (es : List Expr) : heightAll es = (es.map height).foldr max 0 := by
  induction es with
  | nil => rfl
  | cons e es ih => rw [heightAll, ih, List.map_cons, List.foldr_cons]

theorem depth_list (items : List Expr) :
    (list items).depth = 1 + (items.map depth).foldr max 0 := by
  have hitems : items.map depth = items.map height :=
    List.map_congr_left fun e _ => depth_eq_height e
  rw [depth_eq_height, height, hitems, heightAll_eq_foldr, Nat.add_comm]

theorem peaks_items {es : List Expr}
    (h : ∀ e ∈ es, Peaks (Style.canonical.chars e) e.height) :
    Peaks (es.flatMap fun e => Style.canonical.chars e ++ [' ']) (heightAll es) := by
  induction es with
  | nil => exact .plain List.not_mem_nil List.not_mem_nil
  | cons e es ih =>
    have hspace : Peaks [' '] 0 := .plain (by decide) (by decide)
    have hitem : Peaks (Style.canonical.chars e ++ [' ']) e.height := by
      have := (h e List.mem_cons_self).append hspace
      rwa [Nat.max_zero] at this
    rw [List.flatMap_cons, heightAll]
    exact hitem.append (ih fun e he => h e (List.mem_cons_of_mem _ he))

theorem peaks_chars {e : Expr}
    (h : ∀ text ∈ e.atoms, '(' ∉ text.toList ∧ ')' ∉ text.toList) :
    Peaks (Style.canonical.chars e) e.height := by
  induction e using recOnItems with
  | atom text =>
    obtain ⟨hopening, hclosing⟩ := h text (by simp)
    rw [chars_canonical_atom, height]
    exact .plain hopening hclosing
  | list items ih =>
    rw [chars_canonical_list, height]
    refine (peaks_items fun e he => ih e he fun text htext => h text ?_).enclose
    rw [atoms_list]
    exact List.mem_flatMap.2 ⟨e, he, htext⟩

/-- The depth of an atom is 0, and that of a list is one more than the greatest depth of an item. If
no atom holds a parenthesis, it is the greatest number of opening parentheses less closing ones that
a front of the canonical text has. -/
theorem depth_exact (e : Expr) :
    (e.depth = match e with
      | atom _ => 0
      | list items => 1 + (items.map depth).foldr max 0) ∧
      ((∀ text ∈ e.atoms, '(' ∉ text.toList ∧ ')' ∉ text.toList) →
        IsGreatest {k : Int | ∃ front, front <+: e.render.toList ∧
          k = front.count '(' - front.count ')'} e.depth) := by
  constructor
  · cases e with
    | atom text => rw [depth_eq_height, height]
    | list items => exact depth_list items
  · intro h
    rw [toList_render, depth_eq_height]
    exact (peaks_chars h).greatest

/-- Spaces in an atom do not matter, and neither does an atom without text. -/
theorem depth_exact_spaced :
    (∀ text ∈ (list [atom "a b", list [atom ""]]).atoms,
        '(' ∉ text.toList ∧ ')' ∉ text.toList) ∧
      IsGreatest {k : Int | ∃ front, front <+: (list [atom "a b", list [atom ""]]).render.toList ∧
        k = front.count '(' - front.count ')'} (list [atom "a b", list [atom ""]]).depth := by
  have h : ∀ text ∈ (list [atom "a b", list [atom ""]]).atoms,
      '(' ∉ text.toList ∧ ')' ∉ text.toList := by
    simp
  exact ⟨h, (depth_exact _).2 h⟩

end Expr

end Sexp
