import Sexp.Parse.Lenient
import Sexp.Proofs.Spine
import Mathlib.Data.List.TakeWhile

/-!
# Runs of the lenient parser

The layers of the lenient parser are the open lists of a spine around what has been salvaged outside
all lists (`layersOf`). A step moves the layers as the token moves the spine, and stops where the
spine stops.

* `layers_step`: a token moves the layers, or stops the parser.
* `layers_consume`: the parser takes in the tokens in front of a stray closing parenthesis.
* `layers_closeAll`: at the end it goes on as if every open list were closed.
* `parse_value`: the parser returns what is salvaged from the expressions that the completed tokens
  flatten.
-/

namespace Sexp

/-- What is made of a row of expressions outside any list: the first list goes on with everything
after it, and where no list is, the last expression stays. -/
def salvaged (es : List Expr) : Expr :=
  match es.dropWhile Expr.isAtom with
  | .list items :: rest => .list (items ++ rest)
  | _ => es.getLast?.getD (.list [])

theorem salvaged_singleton (e : Expr) : salvaged [e] = e := by
  cases e with
  | atom text => rfl
  | list items =>
    show Expr.list (items ++ []) = .list items
    rw [List.append_nil]

namespace Lenient

/-- The top layer after a row of expressions outside any list. -/
def topLayer (es : List Expr) : Layer :=
  match es.dropWhile Expr.isAtom with
  | .list items :: rest => .list (items ++ rest).toArray
  | _ =>
    match es.getLast? with
    | none => .empty
    | some e => .bare e

/-- The layers that stand for a spine, the innermost first. -/
def layersOf (p : Spine) : List Layer :=
  p.opened.map (fun items => .list items.toArray) ++ [topLayer p.top]

def State.layers (s : State) : List Layer :=
  s.current :: s.pending

theorem expr?_topLayer (es : List Expr) : (topLayer es).expr?.getD (.list []) = salvaged es := by
  unfold topLayer salvaged
  split
  · rfl
  · cases es.getLast? <;> rfl

section
variable {pending : List Layer} {current : Layer} {events : Array Event} {top : List Expr}

theorem layers_eq_nil_iff : State.layers ⟨pending, current, events⟩ = layersOf ⟨top, []⟩ ↔
    current = topLayer top ∧ pending = [] := by
  simp [State.layers, layersOf]

theorem layers_eq_cons_iff {items : List Expr} {outer : List (List Expr)} :
    State.layers ⟨pending, current, events⟩ = layersOf ⟨top, items :: outer⟩ ↔
      current = .list items.toArray ∧ pending = layersOf ⟨top, outer⟩ := by
  simp [State.layers, layersOf]

end

/-! ## Layers move like spines -/

theorem topLayer_of_all_isAtom {es : List Expr} (h : ∀ e ∈ es, e.isAtom = true) :
    topLayer es = match es.getLast? with
      | none => .empty
      | some e => .bare e := by
  unfold topLayer
  rw [List.dropWhile_eq_nil_iff.2 h]

theorem topLayer_append_list {es : List Expr} (h : ∀ e ∈ es, e.isAtom = true)
    (items rest : List Expr) :
    topLayer (es ++ .list items :: rest) = .list (items ++ rest).toArray := by
  unfold topLayer
  rw [List.dropWhile_append_of_pos h]
  rfl

/-- A row of expressions is a row of atoms, or its first list follows such a row. -/
theorem atoms_or_first_list (es : List Expr) :
    (∀ e ∈ es, e.isAtom = true) ∨
      ∃ front items rest, es = front ++ .list items :: rest ∧ ∀ e ∈ front, e.isAtom = true := by
  induction es with
  | nil => exact .inl (by simp)
  | cons e es ih =>
    cases e with
    | list items => exact .inr ⟨[], items, es, rfl, by simp⟩
    | atom text =>
      rcases ih with h | ⟨front, items, rest, rfl, h⟩
      · exact .inl (by simpa [Expr.isAtom] using h)
      · exact .inr ⟨.atom text :: front, items, rest, rfl, by simpa [Expr.isAtom] using h⟩

theorem layers_add_nil (top : List Expr) (e : Expr) (events : Array Event) :
    (State.add ⟨[], topLayer top, events⟩ e).layers = [topLayer (top ++ [e])] := by
  rcases atoms_or_first_list top with h | ⟨front, items, rest, rfl, h⟩
  · have hcurrent : ∀ events, (State.add ⟨[], topLayer top, events⟩ e).layers =
        [Layer.ofExpr e] := by
      intro events
      rw [topLayer_of_all_isAtom h]
      cases top.getLast? <;> rfl
    rw [hcurrent]
    cases e with
    | atom text =>
      have hall : ∀ e ∈ top ++ [.atom text], e.isAtom = true := by
        intro e he
        rcases List.mem_append.1 he with he | he
        · exact h e he
        · rw [List.mem_singleton.1 he]
          rfl
      rw [topLayer_of_all_isAtom hall]
      simp [Layer.ofExpr]
    | list items =>
      rw [topLayer_append_list h]
      simp [Layer.ofExpr]
  · rw [topLayer_append_list h, List.append_assoc, List.cons_append, topLayer_append_list h]
    simp [State.add, State.layers]

theorem layers_add {s : State} {p : Spine} (h : s.layers = layersOf p) (e : Expr) :
    (s.add e).layers = layersOf (p.add e) := by
  obtain ⟨pending, current, events⟩ := s
  obtain ⟨top, opened⟩ := p
  cases opened with
  | nil =>
    obtain ⟨rfl, rfl⟩ := layers_eq_nil_iff.1 h
    rw [layers_add_nil]
    rfl
  | cons items outer =>
    obtain ⟨rfl, rfl⟩ := layers_eq_cons_iff.1 h
    simp [State.add, State.layers, Spine.add, layersOf]

theorem layers_resume {s : State} {p : Spine} (h : s.layers = layersOf p) (items : List Expr) :
    (s.resume (.list items.toArray)).layers = layersOf (p.add (.list items)) :=
  layers_add h (.list items)

/-- A list ends as it ends in the spine, and the top layer never ends. -/
theorem layers_leave {s : State} {p : Spine} (h : s.layers = layersOf p) :
    (∃ r q, s.leave = .ok r ∧ p.step .rparen = some q ∧ r.layers = layersOf q) ∨
      (s.leave = .error s ∧ p.step .rparen = none) := by
  obtain ⟨pending, current, events⟩ := s
  obtain ⟨top, opened⟩ := p
  cases opened with
  | nil =>
    obtain ⟨rfl, rfl⟩ := layers_eq_nil_iff.1 h
    exact .inr ⟨rfl, rfl⟩
  | cons items outer =>
    obtain ⟨rfl, hpending⟩ := layers_eq_cons_iff.1 h
    cases pending with
    | nil => simp [layersOf] at hpending
    | cons parent rest =>
      have hparent : State.layers ⟨rest, parent, events⟩ = layersOf ⟨top, outer⟩ := hpending
      exact .inl ⟨_, _, rfl, rfl, layers_resume hparent items⟩

/-- A token moves the layers as it moves the spine, or stops both. -/
theorem layers_step {s : State} {p : Spine} (h : s.layers = layersOf p) (t : Token) :
    (∃ r q, s.step t = .ok r ∧ p.step t = some q ∧ r.layers = layersOf q) ∨
      (s.step t = .error s ∧ p.step t = none) := by
  cases t with
  | lparen =>
    refine .inl ⟨_, _, rfl, rfl, ?_⟩
    simp only [State.descend, State.layers, layersOf, List.map_cons, List.cons_append] at h ⊢
    rw [h]
  | rparen => exact layers_leave h
  | text text => exact .inl ⟨_, _, rfl, rfl, layers_add h _⟩

/-! ## Runs -/

/-- The parser takes in the tokens in front of the first stray closing parenthesis. -/
theorem layers_consume {s : State} {p : Spine} (h : s.layers = layersOf p) (ts : List Located) :
    ∃ q, p.run (beforeStrayFrom p.opened.length (ts.map Located.token)) = some q ∧
      (s.consume ts).layers = layersOf q := by
  induction ts generalizing s p with
  | nil => exact ⟨p, by rw [List.map_nil, beforeStrayFrom]; rfl, h⟩
  | cons tok ts ih =>
    obtain ⟨token, offset⟩ := tok
    rw [List.map_cons, State.consume]
    rcases layers_step h token with ⟨r, q, hr, hq, hrq⟩ | ⟨hs, hp⟩
    · obtain ⟨q', hq', hr'⟩ := ih hrq
      refine ⟨q', ?_, by rw [hr]; exact hr'⟩
      rw [Spine.beforeStrayFrom_cons_of_step hq, Spine.run_cons, hq]
      exact hq'
    · obtain ⟨rfl, hopen⟩ := Spine.step_eq_none_iff.1 hp
      refine ⟨p, ?_, ?_⟩
      · rw [hopen]
        rfl
      · rw [hs]
        simp only
        split <;> exact h

/-- Ending every list is reading a closing parenthesis for each of them. -/
theorem layers_closeAll {s : State} {p : Spine} (h : s.layers = layersOf p) :
    ∃ es, p.run (List.replicate p.opened.length .rparen) = some ⟨es, []⟩ ∧
      s.closeAll.layers = [topLayer es] := by
  fun_induction State.closeAll s generalizing p with
  | case1 s t ht ih =>
    rcases layers_leave h with ⟨r, q, hr, hq, hrq⟩ | ⟨hs, -⟩
    · rw [ht] at hr
      cases hr
      obtain ⟨es, hes, hlayers⟩ := ih hrq
      refine ⟨es, ?_, hlayers⟩
      rw [← Spine.length_opened_of_step_rparen hq, List.replicate_succ, Spine.run_cons, hq]
      exact hes
    · rw [ht] at hs
      cases hs
  | case2 s t ht =>
    rcases layers_leave h with ⟨r, q, hr, -⟩ | ⟨hs, hp⟩
    · rw [ht] at hr
      cases hr
    · rw [ht] at hs
      cases hs
      have hopen := (Spine.step_eq_none_iff.1 hp).2
      refine ⟨p.top, ?_, ?_⟩
      · obtain ⟨top, opened⟩ := p
        obtain rfl : opened = [] := hopen
        rfl
      · rw [h, layersOf, hopen]
        rfl

@[simp] theorem layers_noteUnclosed (s : State) : s.noteUnclosed.layers = s.layers := by
  unfold State.noteUnclosed
  split <;> rfl

/-- The parser returns what is salvaged from the expressions that the completed tokens flatten. -/
theorem parse_value {ts : List Located} {es : List Expr}
    (h : es.flatMap Expr.tokens = completed (beforeStray (ts.map Located.token))) :
    (parse ts).value = salvaged es := by
  obtain ⟨q, hq, hconsume⟩ := layers_consume (s := {}) (p := {}) rfl ts
  obtain ⟨fs, hfs, hclose⟩ := layers_closeAll ((layers_noteUnclosed _).trans hconsume)
  have htokens : q.tokens = beforeStray (ts.map Located.token) := Spine.run_eq_some_iff.1 hq
  have hes : es = fs := by
    rw [← htokens, Spine.flatMap_tokens_eq_completed_iff, hfs] at h
    exact (congrArg Spine.top (Option.some.inj h)).symm
  rw [hes, ← expr?_topLayer]
  have hcurrent := congrArg List.head? hclose
  simp only [State.layers, List.head?_cons, Option.some.injEq] at hcurrent
  rw [← hcurrent]
  rfl

/-- Some expressions are flattened by the completed tokens, and the parser returns what is salvaged
from them. -/
theorem exists_salvaged (ts : List Located) :
    ∃ es : List Expr, es.flatMap Expr.tokens = completed (beforeStray (ts.map Located.token)) ∧
      (parse ts).value = salvaged es := by
  obtain ⟨q, hq⟩ := Spine.exists_run_beforeStray (ts.map Located.token)
  obtain ⟨es, hes⟩ := Spine.exists_flatMap_tokens_eq_completed q
  rw [hq] at hes
  exact ⟨es, hes, parse_value hes⟩

theorem parse_nil : (parse []).value = .list [] := by
  have h : ([] : List Expr).flatMap Expr.tokens =
      completed (beforeStray (([] : List Located).map Located.token)) := rfl
  exact parse_value h

/-- The flattening of an expression is read as the expression. -/
theorem parse_of_tokens {ts : List Located} {e : Expr} (h : ts.map Located.token = e.tokens) :
    (parse ts).value = e := by
  have htokens : [e].flatMap Expr.tokens = completed (beforeStray (ts.map Located.token)) := by
    have hspine : e.tokens = Spine.tokens ⟨[e], []⟩ := by simp
    rw [h, hspine, Spine.beforeStray_tokens, Spine.flatMap_tokens_eq_completed_iff]
    rfl
  rw [parse_value htokens, salvaged_singleton]

/-- Rows that are completed to the same tokens are salvaged alike. -/
theorem parse_value_congr_completed {ts us : List Located}
    (h : completed (beforeStray (ts.map Located.token)) =
      completed (beforeStray (us.map Located.token))) :
    (parse ts).value = (parse us).value := by
  obtain ⟨es, hes, hvalue⟩ := exists_salvaged ts
  rw [hvalue, parse_value (hes.trans h)]

/-- Only the tokens in front of the first stray closing parenthesis count. -/
theorem parse_value_congr {ts us : List Located}
    (h : beforeStray (ts.map Located.token) = beforeStray (us.map Located.token)) :
    (parse ts).value = (parse us).value :=
  parse_value_congr_completed (congrArg completed h)

end Lenient

end Sexp
