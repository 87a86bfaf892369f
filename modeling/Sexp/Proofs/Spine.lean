import Sexp.Proofs.Nesting
import Sexp.Expr.Depth

/-!
# Half-read expressions

A spine holds everything that a row of tokens has said so far: the complete expressions outside any
list and, for every list that is open, its items. Reading a token is a partial function on spines,
which fails at a closing parenthesis outside any list and nowhere else. Both parsers walk along
spines, so what holds of spines is shared between them.

* `run_eq_some_iff`: a row of tokens leads to a spine iff it is the row that the spine spells.
* `flatMap_tokens_injective`: a row of tokens is the flattening of one row of expressions at most.
* `exists_run_beforeStray`: the tokens before a stray closing parenthesis lead to a spine.
* `exists_run_close`: closing what is open leads to complete expressions.
* `height_step`, `width_step`: what a token does to the height and to the number of expressions that
  have begun outside any list.
-/

namespace Sexp

/-- What is known in the middle of a row of tokens. -/
structure Spine where
  /-- The complete expressions outside any list. -/
  top : List Expr := []
  /-- The items so far of every open list, the innermost first. -/
  opened : List (List Expr) := []

namespace Spine

/-- Adds an expression to the innermost list, or outside any list. -/
def add : Spine → Expr → Spine
  | ⟨top, []⟩, e => ⟨top ++ [e], []⟩
  | ⟨top, items :: outer⟩, e => ⟨top, (items ++ [e]) :: outer⟩

/-- Takes in one token, unless it is a closing parenthesis outside any list. -/
def step : Spine → Token → Option Spine
  | ⟨top, opened⟩, .lparen => some ⟨top, [] :: opened⟩
  | ⟨_, []⟩, .rparen => none
  | ⟨top, items :: outer⟩, .rparen => some (add ⟨top, outer⟩ (.list items))
  | s, .text text => some (s.add (.atom text))

/-- Takes in a row of tokens. -/
def run (s : Spine) (ts : List Token) : Option Spine :=
  ts.foldlM step s

/-- The tokens that a spine has taken in. -/
def tokens (s : Spine) : List Token :=
  s.top.flatMap Expr.tokens ++
    s.opened.reverse.flatMap fun items => .lparen :: items.flatMap Expr.tokens

/-! ## Adding an expression -/

@[simp] theorem length_opened_add (s : Spine) (e : Expr) :
    (s.add e).opened.length = s.opened.length := by
  unfold add
  split <;> rfl

theorem tokens_add (s : Spine) (e : Expr) : (s.add e).tokens = s.tokens ++ e.tokens := by
  unfold add
  split <;> simp [tokens]

theorem foldl_add_cons (top items : List Expr) (outer : List (List Expr)) (es : List Expr) :
    es.foldl add ⟨top, items :: outer⟩ = ⟨top, (items ++ es) :: outer⟩ := by
  induction es generalizing items with
  | nil => simp
  | cons e es ih => rw [List.foldl_cons, add, ih]; simp

theorem foldl_add_nil (top es : List Expr) : es.foldl add ⟨top, []⟩ = ⟨top ++ es, []⟩ := by
  induction es generalizing top with
  | nil => simp
  | cons e es ih => rw [List.foldl_cons, add, ih]; simp

/-! ## Steps and runs -/

theorem step_eq_none_iff {s : Spine} {t : Token} :
    s.step t = none ↔ t = .rparen ∧ s.opened = [] := by
  unfold step
  split <;> simp

theorem tokens_step {s r : Spine} {t : Token} (h : s.step t = some r) :
    r.tokens = s.tokens ++ [t] := by
  unfold step at h
  split at h
  · cases h
    simp [tokens]
  · cases h
  · cases h
    rw [tokens_add]
    simp [tokens]
  · cases h
    rw [tokens_add, Expr.tokens_atom]

theorem run_cons (s : Spine) (t : Token) (ts : List Token) :
    s.run (t :: ts) = (s.step t).bind fun r => r.run ts := rfl

theorem run_append (s : Spine) (ts us : List Token) :
    s.run (ts ++ us) = (s.run ts).bind fun r => r.run us :=
  List.foldlM_append

theorem run_cons_eq_some {s r : Spine} {t : Token} {ts : List Token}
    (h : s.run (t :: ts) = some r) : ∃ m, s.step t = some m ∧ m.run ts = some r :=
  Option.bind_eq_some_iff.1 h

theorem tokens_run {s r : Spine} {ts : List Token} (h : s.run ts = some r) :
    r.tokens = s.tokens ++ ts := by
  induction ts generalizing s with
  | nil =>
    cases h
    simp
  | cons t ts ih =>
    obtain ⟨m, hm, hr⟩ := run_cons_eq_some h
    rw [ih hr, tokens_step hm, List.append_assoc]
    rfl

/-! ## Spines spell their tokens -/

theorem run_flatMap_of {es : List Expr} (h : ∀ e ∈ es, ∀ r : Spine, r.run e.tokens = some (r.add e))
    (s : Spine) : s.run (es.flatMap Expr.tokens) = some (es.foldl add s) := by
  induction es generalizing s with
  | nil => rfl
  | cons e es ih =>
    rw [List.flatMap_cons, run_append, h e (by simp), Option.bind_some,
      ih fun e he => h e (by simp [he])]
    rfl

theorem run_tokens (e : Expr) (s : Spine) : s.run e.tokens = some (s.add e) := by
  induction e using Expr.recOnItems generalizing s with
  | atom text => rw [Expr.tokens_atom]; rfl
  | list items ih =>
    obtain ⟨top, opened⟩ := s
    rw [Expr.tokens_list, run_cons, step, Option.bind_some, run_append, run_flatMap_of ih,
      foldl_add_cons]
    rfl

theorem run_flatMap_tokens (es : List Expr) (s : Spine) :
    s.run (es.flatMap Expr.tokens) = some (es.foldl add s) :=
  run_flatMap_of (fun e _ => run_tokens e) s

/-- A spine takes in its own tokens. -/
theorem run_tokens_self (s : Spine) : run {} s.tokens = some s := by
  obtain ⟨top, opened⟩ := s
  induction opened with
  | nil =>
    simp only [tokens, List.reverse_nil, List.flatMap_nil, List.append_nil]
    rw [run_flatMap_tokens, foldl_add_nil]
    rfl
  | cons items outer ih =>
    have hsplit : tokens ⟨top, items :: outer⟩ =
        tokens ⟨top, outer⟩ ++ (.lparen :: items.flatMap Expr.tokens) := by
      simp [tokens]
    rw [hsplit, run_append, ih, Option.bind_some, run_cons, step, Option.bind_some,
      run_flatMap_tokens, foldl_add_cons]
    rfl

theorem run_eq_some_iff {s : Spine} {ts : List Token} : run {} ts = some s ↔ s.tokens = ts := by
  constructor
  · intro h
    rw [tokens_run h]
    rfl
  · intro h
    rw [← h]
    exact run_tokens_self s

theorem tokens_injective {s r : Spine} (h : s.tokens = r.tokens) : s = r := by
  have hs := run_tokens_self s
  rw [h, run_tokens_self r] at hs
  exact (Option.some.inj hs).symm

@[simp] theorem tokens_complete (es : List Expr) : tokens ⟨es, []⟩ = es.flatMap Expr.tokens := by
  simp [tokens]

theorem flatMap_tokens_injective {es fs : List Expr}
    (h : es.flatMap Expr.tokens = fs.flatMap Expr.tokens) : es = fs := by
  have hs : (⟨es, []⟩ : Spine) = ⟨fs, []⟩ := tokens_injective (by simpa using h)
  exact congrArg top hs

/-! ## Open lists -/

theorem length_opened_step {s r : Spine} {t : Token} (h : s.step t = some r) :
    r.opened.length = unclosedFrom s.opened.length ([t].filterMap Token.paren?) := by
  unfold step at h
  split at h
  · cases h
    rfl
  · cases h
  · cases h
    exact length_opened_add _ _
  · cases h
    exact length_opened_add _ _

theorem length_opened_run {s r : Spine} {ts : List Token} (h : s.run ts = some r) :
    r.opened.length = unclosedFrom s.opened.length (ts.filterMap Token.paren?) := by
  induction ts generalizing s with
  | nil =>
    cases h
    rfl
  | cons t ts ih =>
    obtain ⟨m, hm, hr⟩ := run_cons_eq_some h
    rw [ih hr, length_opened_step hm, ← unclosedFrom_append, ← List.filterMap_append]
    rfl

theorem unclosed_tokens (s : Spine) : unclosed s.tokens = s.opened.length :=
  (length_opened_run (run_tokens_self s)).symm

theorem length_opened_of_step_rparen {s r : Spine} (h : s.step .rparen = some r) :
    r.opened.length + 1 = s.opened.length := by
  obtain ⟨top, opened⟩ := s
  cases opened with
  | nil => cases h
  | cons items outer =>
    cases h
    simp

/-- A token that a spine can take in is no stray closing parenthesis. -/
theorem beforeStrayFrom_cons_of_step {s r : Spine} {t : Token} (h : s.step t = some r)
    (ts : List Token) :
    beforeStrayFrom s.opened.length (t :: ts) = t :: beforeStrayFrom r.opened.length ts := by
  cases t with
  | lparen =>
    cases h
    rw [beforeStrayFrom]
    rfl
  | rparen => rw [← length_opened_of_step_rparen h, beforeStrayFrom]
  | text text =>
    cases h
    rw [beforeStrayFrom, length_opened_add]

theorem beforeStrayFrom_append_of_run {s r : Spine} {ts : List Token} (h : s.run ts = some r)
    (us : List Token) :
    beforeStrayFrom s.opened.length (ts ++ us) = ts ++ beforeStrayFrom r.opened.length us := by
  induction ts generalizing s with
  | nil =>
    cases h
    rfl
  | cons t ts ih =>
    obtain ⟨m, hm, hr⟩ := run_cons_eq_some h
    rw [List.cons_append, beforeStrayFrom_cons_of_step hm, ih hr, List.cons_append]

theorem beforeStray_tokens_append (s : Spine) (us : List Token) :
    beforeStray (s.tokens ++ us) = s.tokens ++ beforeStrayFrom s.opened.length us :=
  beforeStrayFrom_append_of_run (run_tokens_self s) us

@[simp] theorem beforeStray_tokens (s : Spine) : beforeStray s.tokens = s.tokens := by
  have h := beforeStray_tokens_append s []
  rw [List.append_nil, beforeStrayFrom, List.append_nil] at h
  exact h

theorem exists_run_beforeStrayFrom (s : Spine) (ts : List Token) :
    ∃ r, s.run (beforeStrayFrom s.opened.length ts) = some r := by
  induction ts generalizing s with
  | nil => exact ⟨s, by rw [beforeStrayFrom]; rfl⟩
  | cons t ts ih =>
    cases hm : s.step t with
    | none =>
      obtain ⟨rfl, hopen⟩ := step_eq_none_iff.1 hm
      rw [hopen]
      exact ⟨s, rfl⟩
    | some m =>
      obtain ⟨r, hr⟩ := ih m
      refine ⟨r, ?_⟩
      rw [beforeStrayFrom_cons_of_step hm, run_cons, hm]
      exact hr

theorem exists_run_beforeStray (ts : List Token) :
    ∃ s : Spine, s.tokens = beforeStray ts := by
  obtain ⟨s, hs⟩ := exists_run_beforeStrayFrom {} ts
  exact ⟨s, run_eq_some_iff.1 hs⟩

/-! ## Closing what is open -/

theorem exists_run_close (s : Spine) :
    ∃ es, s.run (List.replicate s.opened.length .rparen) = some ⟨es, []⟩ := by
  generalize hn : s.opened.length = n
  induction n generalizing s with
  | zero =>
    obtain ⟨top, opened⟩ := s
    obtain rfl := List.length_eq_zero_iff.1 hn
    exact ⟨top, rfl⟩
  | succ n ih =>
    obtain ⟨top, opened⟩ := s
    obtain ⟨items, outer, rfl⟩ := List.exists_cons_of_length_eq_add_one hn
    exact ih (add ⟨top, outer⟩ (.list items)) (by simpa using hn)

/-- The expressions that a spine's completed tokens flatten are those that closing its lists
leaves. -/
theorem flatMap_tokens_eq_completed_iff {s : Spine} {es : List Expr} :
    es.flatMap Expr.tokens = completed s.tokens ↔
      s.run (List.replicate s.opened.length .rparen) = some ⟨es, []⟩ := by
  rw [completed, unclosed_tokens, ← tokens_complete, ← run_eq_some_iff, run_append,
    run_tokens_self, Option.bind_some]

theorem exists_flatMap_tokens_eq_completed (s : Spine) :
    ∃ es : List Expr, es.flatMap Expr.tokens = completed s.tokens := by
  obtain ⟨es, hes⟩ := exists_run_close s
  exact ⟨es, flatMap_tokens_eq_completed_iff.2 hes⟩

/-! ## Height and width -/

/-- The greatest height that the items of open lists reach, counted from outside all lists. -/
def openHeight : List (List Expr) → Nat
  | [] => 0
  | items :: outer => max (openHeight outer) (outer.length + 1 + Expr.heightAll items)

/-- The height of everything that has been read. -/
def height (s : Spine) : Nat :=
  max (Expr.heightAll s.top) (openHeight s.opened)

/-- The number of expressions that have begun outside any list. -/
def width (s : Spine) : Nat :=
  s.top.length + min 1 s.opened.length

theorem heightAll_append (es fs : List Expr) :
    Expr.heightAll (es ++ fs) = max (Expr.heightAll es) (Expr.heightAll fs) := by
  induction es with
  | nil => simp [Expr.heightAll]
  | cons e es ih =>
    simp only [List.cons_append, Expr.heightAll, ih]
    omega

theorem length_le_openHeight (opened : List (List Expr)) : opened.length ≤ openHeight opened := by
  cases opened with
  | nil => exact Nat.zero_le _
  | cons items outer =>
    rw [openHeight, List.length_cons]
    omega

theorem height_add (s : Spine) (e : Expr) :
    (s.add e).height = max s.height (s.opened.length + e.height) := by
  unfold add
  split
  · simp only [height, heightAll_append, Expr.heightAll, openHeight, List.length_nil]
    omega
  · simp only [height, openHeight, heightAll_append, Expr.heightAll, List.length_cons]
    omega

/-- Only opening a list can make a spine higher. -/
theorem height_step {s r : Spine} {t : Token} (h : s.step t = some r) :
    r.height = if t = .lparen then max s.height (s.opened.length + 1) else s.height := by
  unfold step at h
  split at h
  · cases h
    simp only [height, openHeight, Expr.heightAll, if_true]
    omega
  · cases h
  · cases h
    rw [height_add]
    simp only [height, openHeight, Expr.height, reduceCtorEq, if_false]
    omega
  · cases h
    have := length_le_openHeight s.opened
    rw [height_add]
    simp only [height, Expr.height, reduceCtorEq, if_false]
    omega

theorem width_add (s : Spine) (e : Expr) :
    (s.add e).width = if s.opened = [] then s.width + 1 else s.width := by
  unfold add
  split <;> simp [width]

/-- Only a token outside all lists begins another expression there. -/
theorem width_step {s r : Spine} {t : Token} (h : s.step t = some r) :
    r.width = if s.opened = [] then s.width + 1 else s.width := by
  unfold step at h
  split at h
  · cases h
    rename_i top opened
    cases opened <;> simp [width]
  · cases h
  · cases h
    rw [width_add]
    rename_i outer
    cases outer <;> simp [width]
  · cases h
    exact width_add _ _

theorem height_width_close {s r : Spine} {k : Nat}
    (h : s.run (List.replicate k .rparen) = some r) : r.height = s.height ∧ r.width = s.width := by
  induction k generalizing s with
  | zero =>
    cases h
    exact ⟨rfl, rfl⟩
  | succ k ih =>
    obtain ⟨m, hm, hr⟩ := run_cons_eq_some h
    have hopen : s.opened ≠ [] := fun hopen => by
      rw [step_eq_none_iff.2 ⟨rfl, hopen⟩] at hm
      cases hm
    obtain ⟨hheight, hwidth⟩ := ih hr
    rw [hheight, hwidth, height_step hm, width_step hm, if_neg hopen]
    exact ⟨rfl, rfl⟩

/-- What no token makes smaller, no row of tokens does. -/
theorem le_of_run {size : Spine → Nat}
    (hstep : ∀ (s r : Spine) (t : Token), s.step t = some r → size s ≤ size r) {s r : Spine}
    {ts : List Token} (h : s.run ts = some r) : size s ≤ size r := by
  induction ts generalizing s with
  | nil =>
    cases h
    exact Nat.le_refl _
  | cons t ts ih =>
    obtain ⟨m, hm, hr⟩ := run_cons_eq_some h
    exact Nat.le_trans (hstep s m t hm) (ih hr)

theorem height_le_of_run {s r : Spine} {ts : List Token} (h : s.run ts = some r) :
    s.height ≤ r.height := by
  apply le_of_run _ h
  intro s r t ht
  rw [height_step ht]
  split <;> omega

theorem width_le_of_run {s r : Spine} {ts : List Token} (h : s.run ts = some r) :
    s.width ≤ r.width := by
  apply le_of_run _ h
  intro s r t ht
  rw [width_step ht]
  split <;> omega

end Spine

end Sexp
