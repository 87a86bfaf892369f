import Sexp.Token.Basic

/-!
# Nesting

How parentheses match, in a row of tokens and in a text alike: only the parentheses count, and each
closing one takes the latest opening one that is still without a partner.

* `unclosedFrom_append`: the count goes on from where it stopped.
* `count_eq_of_filterMap_eq`: rows with the same parentheses open and close as often as each other.
* `completed_append_replicate`: closing a list that is open only completes the row.
* `lastUnclosed_of_balanced`: what is never closed in front of a balanced row.
* `beforeStray_cases`: a row of tokens is cut in front of the first closing parenthesis that has no
  partner, and nowhere else.
-/

namespace Sexp

inductive Paren where
  | opening
  | closing
  deriving DecidableEq

/-- The number of opening parentheses that are without a partner at the end, if `n` were at the
beginning. A closing parenthesis that has no partner changes nothing. -/
def unclosedFrom : Nat → List Paren → Nat
  | n, [] => n
  | n, .opening :: ps => unclosedFrom (n + 1) ps
  | n, .closing :: ps => unclosedFrom (n - 1) ps

/-! ## Rows with an opening and a closing element -/

section
variable {α : Type} [BEq α] (opening closing : α)

/-- The parenthesis that an element is, if it is one. -/
def parenOf (a : α) : Option Paren :=
  if a == opening then some .opening
  else if a == closing then some .closing
  else none

/-- The number of opening elements in a row that are without a partner. -/
def unclosedIn (as : List α) : Nat :=
  unclosedFrom 0 (as.filterMap (parenOf opening closing))

/-- Element `i` opens the first list of the row that stands inside exactly `depth` unclosed ones. -/
structure FirstOpening (as : List α) (depth i : Nat) : Prop where
  opens : as[i]? = some opening
  inside : unclosedIn opening closing (as.take i) = depth
  first : ∀ k < i, as[k]? = some opening → unclosedIn opening closing (as.take k) ≠ depth

/-- The list that element `k` opens is never closed: nowhere behind it have more lists been closed
than opened. -/
structure StaysOpen (as : List α) (k : Nat) : Prop where
  opens : as[k]? = some opening
  never : ∀ n,
    ((as.drop (k + 1)).take n).count closing ≤ ((as.drop (k + 1)).take n).count opening

/-- Element `k` opens the last of the lists that are never closed. -/
structure LastUnclosed (as : List α) (k : Nat) : Prop where
  staysOpen : StaysOpen opening closing as k
  last : ∀ j, StaysOpen opening closing as j → j ≤ k

end

/-! ## Tokens and characters -/

/-- The parenthesis that a token is, if it is one. -/
abbrev Token.paren? : Token → Option Paren :=
  parenOf lparen rparen

/-- The parenthesis that a character is, if it is one. -/
abbrev Text.paren? : Char → Option Paren :=
  parenOf '(' ')'

/-- The number of lists that a row of tokens leaves open. -/
def unclosed (ts : List Token) : Nat :=
  unclosedIn .lparen .rparen ts

/-- The number of opening parentheses in a text that are without a partner. -/
def Text.unclosed (cs : List Char) : Nat :=
  unclosedIn '(' ')' cs

/-- The tokens before the first closing parenthesis that has no partner, if `n` lists were open at
the beginning. -/
def beforeStrayFrom : Nat → List Token → List Token
  | _, [] => []
  | n, .lparen :: ts => .lparen :: beforeStrayFrom (n + 1) ts
  | 0, .rparen :: _ => []
  | n + 1, .rparen :: ts => .rparen :: beforeStrayFrom n ts
  | n, .text text :: ts => .text text :: beforeStrayFrom n ts

/-- The tokens before the first closing parenthesis that has no partner. -/
def beforeStray (ts : List Token) : List Token :=
  beforeStrayFrom 0 ts

/-- A row of tokens, followed by a closing parenthesis for every list that it leaves open. -/
def completed (ts : List Token) : List Token :=
  ts ++ List.replicate (unclosed ts) .rparen

/-! ## Counting -/

theorem unclosedFrom_append (n : Nat) (ps qs : List Paren) :
    unclosedFrom n (ps ++ qs) = unclosedFrom (unclosedFrom n ps) qs := by
  induction ps generalizing n with
  | nil => rfl
  | cons p ps ih =>
    cases p with
    | opening => exact ih (n + 1)
    | closing => exact ih (n - 1)

theorem unclosedFrom_le_count (n : Nat) (ps : List Paren) :
    unclosedFrom n ps ≤ n + ps.count .opening := by
  induction ps generalizing n with
  | nil => exact Nat.le_refl n
  | cons p ps ih =>
    cases p with
    | opening =>
      have := ih (n + 1)
      rw [unclosedFrom, List.count_cons_self]
      omega
    | closing =>
      have := ih (n - 1)
      rw [unclosedFrom, List.count_cons_of_ne (by decide)]
      omega

section
variable {α : Type} [BEq α] [LawfulBEq α] {a b : α}

theorem parenOf_eq_opening_iff {x : α} : parenOf a b x = some .opening ↔ x = a := by
  by_cases ha : x = a <;> by_cases hb : x = b <;> simp [parenOf, ha, hb]

theorem parenOf_eq_closing_iff (hab : a ≠ b) {x : α} : parenOf a b x = some .closing ↔ x = b := by
  by_cases ha : x = a
  · simp [parenOf, ha, hab]
  · by_cases hb : x = b <;> simp [parenOf, ha, hb, hab.symm]

theorem count_filterMap_paren {f : α → Option Paren} {p : Paren} (h : ∀ x, f x = some p ↔ x = a)
    (l : List α) : (l.filterMap f).count p = l.count a := by
  induction l with
  | nil => rfl
  | cons x l ih =>
    by_cases hx : x = a
    · rw [List.filterMap_cons_some ((h x).2 hx), List.count_cons_self, hx, List.count_cons_self, ih]
    · rw [List.count_cons_of_ne hx, ← ih]
      cases hf : f x with
      | none => rw [List.filterMap_cons_none hf]
      | some q =>
        have hq : q ≠ p := fun hq => hx ((h x).1 (hf.trans (congrArg some hq)))
        rw [List.filterMap_cons_some hf, List.count_cons_of_ne hq]

theorem count_opening (b : α) (l : List α) :
    (l.filterMap (parenOf a b)).count .opening = l.count a :=
  count_filterMap_paren (fun _ => parenOf_eq_opening_iff) l

theorem count_closing (hab : a ≠ b) (l : List α) :
    (l.filterMap (parenOf a b)).count .closing = l.count b :=
  count_filterMap_paren (fun _ => parenOf_eq_closing_iff hab) l

/-- Two rows with the same parentheses open and close as often as each other. -/
theorem count_eq_of_filterMap_eq {β : Type} [BEq β] [LawfulBEq β] {a' b' : β} (hab : a ≠ b)
    (hab' : a' ≠ b') {l : List α} {l' : List β}
    (h : l.filterMap (parenOf a b) = l'.filterMap (parenOf a' b')) :
    l.count a = l'.count a' ∧ l.count b = l'.count b' := by
  rw [← count_opening b l, ← count_closing hab l, h, count_opening, count_closing hab']
  exact ⟨rfl, rfl⟩

end

theorem unclosed_append (ts us : List Token) :
    unclosed (ts ++ us) = unclosedFrom (unclosed ts) (us.filterMap Token.paren?) := by
  rw [unclosed, unclosedIn, List.filterMap_append, unclosedFrom_append]
  rfl

/-- Every list that is left open has been opened. -/
theorem unclosed_le_count (ts : List Token) : unclosed ts ≤ ts.count .lparen := by
  have h := unclosedFrom_le_count 0 (ts.filterMap Token.paren?)
  rwa [count_opening, Nat.zero_add] at h

theorem unclosedFrom_replicate_closing (n k : Nat) :
    unclosedFrom n (List.replicate k .closing) = n - k := by
  induction k generalizing n with
  | zero => rfl
  | succ k ih =>
    rw [List.replicate_succ, unclosedFrom, ih]
    omega

theorem unclosed_append_replicate (ts : List Token) (k : Nat) :
    unclosed (ts ++ List.replicate k .rparen) = unclosed ts - k := by
  have hparens : (List.replicate k Token.rparen).filterMap Token.paren? =
      List.replicate k Paren.closing := List.filterMap_replicate_of_some rfl
  rw [unclosed_append, hparens, unclosedFrom_replicate_closing]

/-- Closing parentheses for lists that are open belong to the completed row anyway. -/
theorem completed_append_replicate {k : Nat} {ts : List Token} (h : k ≤ unclosed ts) :
    completed (ts ++ List.replicate k .rparen) = completed ts := by
  rw [completed, unclosed_append_replicate, List.append_assoc, List.replicate_append_replicate,
    Nat.add_sub_cancel' h, completed]

/-! ## Cutting -/

theorem eq_take_append_cons_drop {α : Type} {as : List α} {i : Nat} {a : α}
    (h : as[i]? = some a) : as = as.take i ++ a :: as.drop (i + 1) := by
  obtain ⟨hlt, rfl⟩ := List.getElem?_eq_some_iff.1 h
  rw [List.getElem_cons_drop, List.take_append_drop]

theorem drop_append_cons {α : Type} {pre post : List α} {a : α} (j : Nat) :
    (pre ++ a :: post).drop (pre.length + 1 + j) = post.drop j := by
  rw [List.append_cons, ← List.drop_drop, List.drop_left' (by simp)]

section
variable {α : Type} [BEq α] {a b : α} {pre post : List α}

/-- In front of a row that closes what it opens, an opening is never closed. -/
theorem staysOpen_of_balanced (hstray : ∀ n, (post.take n).count b ≤ (post.take n).count a) :
    StaysOpen a b (pre ++ a :: post) pre.length := by
  have hdrop : (pre ++ a :: post).drop (pre.length + 1) = post := drop_append_cons 0
  refine ⟨by simp, fun n => ?_⟩
  rw [hdrop]
  exact hstray n

/-- Every opening in a row that closes what it opens is closed in it, so that one which is never
closed does not stand behind the one in front of the row. -/
theorem StaysOpen.le_of_balanced [LawfulBEq α] {k : Nat}
    (h : StaysOpen a b (pre ++ a :: post) k) (hab : a ≠ b)
    (hstray : ∀ n, (post.take n).count b ≤ (post.take n).count a)
    (hcount : post.count b = post.count a) : k ≤ pre.length := by
  obtain ⟨hk, hnever⟩ := h
  apply Classical.byContradiction
  intro hlt
  obtain ⟨j, rfl⟩ : ∃ j, k = pre.length + 1 + j := ⟨k - (pre.length + 1), by omega⟩
  rw [← Nat.add_zero (pre.length + 1), ← List.getElem?_drop, drop_append_cons,
    List.drop_zero] at hk
  have hafter := hnever post.length
  rw [Nat.add_assoc, drop_append_cons, List.take_of_length_le (by simp)] at hafter
  have hbefore := hstray j
  rw [eq_take_append_cons_drop hk, List.count_append, List.count_append, List.count_cons_self,
    List.count_cons_of_ne hab] at hcount
  omega

/-- An opening in front of a row that closes what it opens is the last one that is never closed. -/
theorem lastUnclosed_of_balanced [LawfulBEq α] (hab : a ≠ b)
    (hstray : ∀ n, (post.take n).count b ≤ (post.take n).count a)
    (hcount : post.count b = post.count a) :
    LastUnclosed a b (pre ++ a :: post) pre.length :=
  ⟨staysOpen_of_balanced hstray, fun _ h => h.le_of_balanced hab hstray hcount⟩

end

/-- A row is kept whole, or it is cut in front of a closing parenthesis where no list is open. -/
theorem beforeStrayFrom_cases (n : Nat) (ts : List Token) :
    beforeStrayFrom n ts = ts ∨ ∃ rest, ts = beforeStrayFrom n ts ++ .rparen :: rest ∧
      unclosedFrom n ((beforeStrayFrom n ts).filterMap Token.paren?) = 0 := by
  fun_induction beforeStrayFrom n ts with
  | case1 n => exact .inl rfl
  | case2 n ts ih =>
    rcases ih with ih | ⟨rest, hts, hn⟩
    · exact .inl (by rw [ih])
    · exact .inr ⟨rest, by rw [List.cons_append, ← hts], hn⟩
  | case3 ts => exact .inr ⟨ts, rfl, rfl⟩
  | case4 n ts ih =>
    rcases ih with ih | ⟨rest, hts, hn⟩
    · exact .inl (by rw [ih])
    · exact .inr ⟨rest, by rw [List.cons_append, ← hts], hn⟩
  | case5 n text ts ih =>
    rcases ih with ih | ⟨rest, hts, hn⟩
    · exact .inl (by rw [ih])
    · exact .inr ⟨rest, by rw [List.cons_append, ← hts], hn⟩

theorem beforeStray_cases (ts : List Token) :
    beforeStray ts = ts ∨ ∃ rest, ts = beforeStray ts ++ .rparen :: rest ∧
      unclosed (beforeStray ts) = 0 :=
  beforeStrayFrom_cases 0 ts

end Sexp
