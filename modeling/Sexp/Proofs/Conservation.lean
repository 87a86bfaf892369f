import Sexp.Proofs.LenientRun

/-!
# Nothing is lost without a report

The lenient parser holds texts in its layers and gives some of them up, each with an event. What it
has given up, followed by what it holds, is at any time what it has read (`State.texts`). Its other
events are notices: one when tokens behind a stray closing parenthesis are left over, and one when
lists are open at the end.

* `texts_add`, `texts_step`: an expression or a token adds its texts and nothing else.
* `texts_consume`, `texts_closeAll`: the same for a row of tokens and for the end of the parse.
* `notices_parse`: the notices of a parse.
* `counted_cases`: the tokens that are not reported as left over.
* `lists_salvaged`: the lists of what is salvaged are those that the tokens open.
* `lenient_parse_conserves`: the balance of texts, lists and notices.
-/

namespace Sexp

/-! ## What is counted -/

/-- The text of a text block. -/
def Token.text? : Token → Option String
  | text word => some word
  | _ => none

namespace Event

/-- What a top-level expression that was given up is shown as. -/
def discarded? : Event → Option String
  | topLevelReplaced e => some e.render
  | _ => none

/-- The number of tokens that a stray closing parenthesis leaves over. -/
def dropped? : Event → Option Nat
  | strayClose _ dropped => some dropped
  | _ => none

/-- The number of lists that are open at the end. -/
def unclosed? : Event → Option Nat
  | unclosedAtEnd unclosed => some unclosed
  | _ => none

end Event

namespace Expr

mutual
/-- The number of lists in an expression, itself included. -/
def lists : Expr → Nat
  | atom _ => 0
  | list items => listsAll items + 1

def listsAll : List Expr → Nat
  | [] => 0
  | e :: es => e.lists + listsAll es
end

theorem listsAll_append (es fs : List Expr) : listsAll (es ++ fs) = listsAll es + listsAll fs := by
  induction es with
  | nil => simp [listsAll]
  | cons e es ih =>
    simp only [List.cons_append, listsAll, ih]
    omega

theorem count_flatMap_of {es : List Expr} (h : ∀ e ∈ es, e.tokens.count .lparen = e.lists) :
    (es.flatMap tokens).count .lparen = listsAll es := by
  induction es with
  | nil => rfl
  | cons e es ih =>
    rw [List.flatMap_cons, List.count_append, h e (by simp), ih fun e he => h e (by simp [he]),
      listsAll]

theorem count_tokens (e : Expr) : e.tokens.count .lparen = e.lists := by
  induction e using recOnItems with
  | atom text => simp [lists]
  | list items ih =>
    rw [tokens_list, List.count_cons_self, List.count_append, count_flatMap_of ih, lists]
    rfl

/-- Every list has one opening parenthesis. -/
theorem count_lparen_flatMap_tokens (es : List Expr) :
    (es.flatMap tokens).count .lparen = listsAll es :=
  count_flatMap_of fun e _ => count_tokens e

theorem listsAll_of_isAtom {es : List Expr} (h : ∀ e ∈ es, e.isAtom = true) : listsAll es = 0 := by
  induction es with
  | nil => rfl
  | cons e es ih =>
    rw [listsAll, ih fun e he => h e (List.mem_cons_of_mem _ he)]
    cases e with
    | atom text => rfl
    | list items => cases h _ List.mem_cons_self

end Expr

/-- Of a row of expressions, every list is salvaged; where there is nothing, one list is made. -/
theorem lists_salvaged (es : List Expr) :
    (salvaged es).lists = if es = [] then 1 else Expr.listsAll es := by
  rcases Lenient.atoms_or_first_list es with h | ⟨front, items, rest, rfl, h⟩
  · have hsalvaged : salvaged es = es.getLast?.getD (.list []) := by
      rw [salvaged, List.dropWhile_eq_nil_iff.2 h]
    rw [hsalvaged]
    cases hlast : es.getLast? with
    | none =>
      rw [if_pos (List.getLast?_eq_none_iff.1 hlast)]
      rfl
    | some e =>
      have hmem := List.mem_of_getLast? hlast
      rw [if_neg (List.ne_nil_of_mem hmem), Expr.listsAll_of_isAtom h]
      cases e with
      | atom text => rfl
      | list items => cases h _ hmem
  · have hsalvaged : salvaged (front ++ .list items :: rest) = .list (items ++ rest) := by
      rw [salvaged, List.dropWhile_append_of_pos h]
      rfl
    rw [hsalvaged, if_neg (by simp), Expr.listsAll_append, Expr.listsAll_of_isAtom h]
    simp only [Expr.lists, Expr.listsAll, Expr.listsAll_append]
    omega

namespace Lenient

/-! ## Texts -/

/-- The texts of the atoms in a layer. -/
def Layer.texts (layer : Layer) : List String :=
  (layer.expr?.getD (.list [])).atoms

namespace State

/-- The texts that have been given up and those that are held, in the order of the tokens. -/
def texts (s : State) : List String :=
  s.events.toList.filterMap Event.discarded? ++ s.layers.reverse.flatMap Layer.texts

/-- The events other than those about given-up expressions. -/
def notices (s : State) : List Event :=
  s.events.toList.filter fun e => e.discarded?.isNone

theorem texts_note {s : State} {e : Event} (h : e.discarded? = none) :
    (s.note e).texts = s.texts := by
  simp [texts, note, layers, h]

theorem notices_note {s : State} {e : Event} (h : e.discarded? = none) :
    (s.note e).notices = s.notices ++ [e] := by
  simp [notices, note, h]

end State

@[simp] theorem texts_empty : Layer.empty.texts = [] := by simp [Layer.texts, Layer.expr?]

@[simp] theorem texts_bare (e : Expr) : (Layer.bare e).texts = e.atoms := rfl

@[simp] theorem texts_list (items : Array Expr) :
    (Layer.list items).texts = items.toList.flatMap Expr.atoms :=
  Expr.atoms_list items.toList

@[simp] theorem texts_ofExpr (e : Expr) : (Layer.ofExpr e).texts = e.atoms := by
  cases e <;> simp [Layer.ofExpr]

@[simp] theorem discarded?_replaced (text : String) :
    (Event.topLevelReplaced (.atom text)).discarded? = some text := by
  rw [Event.discarded?, Expr.render_atom]

/-- Outside all lists, either nothing, an atom or a list is held. -/
theorem topLayer_cases (es : List Expr) :
    topLayer es = .empty ∨ (∃ text, topLayer es = .bare (.atom text)) ∨
      ∃ items, topLayer es = .list items := by
  rcases atoms_or_first_list es with h | ⟨front, items, rest, rfl, h⟩
  · rw [topLayer_of_all_isAtom h]
    cases hlast : es.getLast? with
    | none => exact .inl rfl
    | some e =>
      cases e with
      | atom text => exact .inr (.inl ⟨text, rfl⟩)
      | list items => cases h _ (List.mem_of_getLast? hlast)
  · exact .inr (.inr ⟨_, topLayer_append_list h items rest⟩)

section
variable {s r : State} {p : Spine}

/-- An expression adds its texts: it joins a list, or what it replaces is given up. -/
theorem texts_add (h : s.layers = layersOf p) (e : Expr) :
    (s.add e).texts = s.texts ++ e.atoms := by
  obtain ⟨pending, current, events⟩ := s
  obtain ⟨top, opened⟩ := p
  have hlist : ∀ (pending : List Layer) (items : Array Expr),
      (State.add ⟨pending, .list items, events⟩ e).texts =
        State.texts ⟨pending, .list items, events⟩ ++ e.atoms := by
    intro pending items
    simp [State.add, State.texts, State.layers]
  cases opened with
  | nil =>
    obtain ⟨rfl, rfl⟩ := layers_eq_nil_iff.1 h
    rcases topLayer_cases top with htop | ⟨text, htop⟩ | ⟨items, htop⟩
    · rw [htop]
      simp [State.add, State.texts, State.layers]
    · rw [htop]
      simp [State.add, State.texts, State.layers]
    · rw [htop]
      exact hlist [] items
  | cons items outer =>
    obtain ⟨rfl, -⟩ := layers_eq_cons_iff.1 h
    exact hlist pending items.toArray

theorem texts_leave (h : s.layers = layersOf p) (hr : s.leave = .ok r) : r.texts = s.texts := by
  obtain ⟨pending, current, events⟩ := s
  obtain ⟨top, opened⟩ := p
  cases opened with
  | nil =>
    obtain ⟨-, rfl⟩ := layers_eq_nil_iff.1 h
    cases hr
  | cons items outer =>
    obtain ⟨rfl, hpending⟩ := layers_eq_cons_iff.1 h
    cases pending with
    | nil => cases hr
    | cons parent rest =>
      cases hr
      have hparent : State.layers ⟨rest, parent, events⟩ = layersOf ⟨top, outer⟩ := hpending
      have hadd := texts_add hparent (.list items)
      simp only [State.resume, Layer.expr?]
      rw [hadd]
      simp [State.texts, State.layers]

/-- A token adds its text, if it is a text block, and nothing else. -/
theorem texts_step (h : s.layers = layersOf p) {t : Token} (hr : s.step t = .ok r) :
    r.texts = s.texts ++ t.text?.toList := by
  cases t with
  | lparen =>
    cases hr
    simp [State.descend, State.texts, State.layers, Token.text?]
  | rparen =>
    rw [texts_leave h hr]
    simp [Token.text?]
  | text text =>
    cases hr
    rw [texts_add h]
    simp [Token.text?]

/-- The tokens in front of a stray closing parenthesis add their texts. -/
theorem texts_consume (h : s.layers = layersOf p) (ts : List Located) :
    (s.consume ts).texts = s.texts ++
      (beforeStrayFrom p.opened.length (ts.map Located.token)).filterMap Token.text? := by
  induction ts generalizing s p with
  | nil => simp [State.consume, beforeStrayFrom]
  | cons tok ts ih =>
    obtain ⟨token, offset⟩ := tok
    rw [List.map_cons, State.consume]
    rcases layers_step h token with ⟨r, q, hr, hq, hrq⟩ | ⟨hs, hp⟩
    · have hrest := ih hrq
      rw [hr, Spine.beforeStrayFrom_cons_of_step hq]
      simp only [hrest, texts_step h hr, List.append_assoc]
      cases token <;> rfl
    · obtain ⟨rfl, hopen⟩ := Spine.step_eq_none_iff.1 hp
      rw [hs, hopen, List.length_nil, beforeStrayFrom, List.filterMap_nil, List.append_nil]
      simp only
      split
      · rfl
      · exact State.texts_note rfl

theorem texts_closeAll (h : s.layers = layersOf p) : s.closeAll.texts = s.texts := by
  fun_induction State.closeAll s generalizing p with
  | case1 s t ht ih =>
    rcases layers_leave h with ⟨r, q, hr, -, hrq⟩ | ⟨hs, -⟩
    · rw [ht] at hr
      cases hr
      rw [ih hrq, texts_leave h ht]
    · rw [ht] at hs
      cases hs
  | case2 s t ht =>
    obtain ⟨-, rfl⟩ := State.leave_eq_error_iff.1 ht
    rfl

/-! ## Notices -/

theorem notices_add (s : State) (e : Expr) : (s.add e).notices = s.notices := by
  unfold State.add
  split <;> simp [State.notices, Event.discarded?]

theorem notices_resume (s : State) (inner : Layer) : (s.resume inner).notices = s.notices := by
  unfold State.resume
  split
  · exact notices_add s _
  · rfl

theorem notices_leave (hr : s.leave = .ok r) : r.notices = s.notices := by
  unfold State.leave at hr
  split at hr <;> cases hr
  exact notices_resume _ _

theorem notices_step {t : Token} (hr : s.step t = .ok r) : r.notices = s.notices := by
  cases t with
  | lparen =>
    cases hr
    rfl
  | rparen => exact notices_leave hr
  | text text =>
    cases hr
    exact notices_add s _

theorem notices_closeAll (s : State) : s.closeAll.notices = s.notices := by
  fun_induction State.closeAll s with
  | case1 s t ht ih => rw [ih, notices_leave ht]
  | case2 s t ht =>
    obtain ⟨-, rfl⟩ := State.leave_eq_error_iff.1 ht
    rfl

/-- What is reported where the tokens that count end, if `n` lists were open at the beginning: the
tokens behind a stray closing parenthesis, if there are any. -/
def strayNotice (n : Nat) (ts : List Located) : List Event :=
  match ts.drop (beforeStrayFrom n (ts.map Located.token)).length with
  | stray :: next :: rest => [.strayClose stray.offset (next :: rest).length]
  | _ => []

theorem notices_consume (h : s.layers = layersOf p) (ts : List Located) :
    (s.consume ts).notices = s.notices ++ strayNotice p.opened.length ts := by
  induction ts generalizing s p with
  | nil => simp [State.consume, strayNotice]
  | cons tok ts ih =>
    obtain ⟨token, offset⟩ := tok
    rw [State.consume]
    rcases layers_step h token with ⟨r, q, hr, hq, hrq⟩ | ⟨hs, hp⟩
    · have hrest := ih hrq
      rw [hr, strayNotice, List.map_cons, Spine.beforeStrayFrom_cons_of_step hq]
      simp only [hrest, notices_step hr]
      rfl
    · obtain ⟨rfl, hopen⟩ := Spine.step_eq_none_iff.1 hp
      rw [hs, strayNotice, List.map_cons, hopen, List.length_nil, beforeStrayFrom]
      cases ts with
      | nil => exact (List.append_nil _).symm
      | cons next rest => exact State.notices_note rfl

/-- What is reported in front of the ends of `n` open lists. -/
def unclosedNotice (n : Nat) : List Event :=
  if n = 0 then [] else [.unclosedAtEnd n]

theorem notices_noteUnclosed (h : s.layers = layersOf p) :
    s.noteUnclosed.notices = s.notices ++ unclosedNotice p.opened.length := by
  have hlen := congrArg List.length h
  simp only [State.layers, layersOf, List.length_cons, List.length_append, List.length_map,
    List.length_nil, Nat.add_right_cancel_iff] at hlen
  unfold State.noteUnclosed unclosedNotice
  rw [← hlen]
  by_cases hpending : s.pending = []
  · simp [hpending]
  · rw [if_neg (by simpa using hpending), if_neg (by simpa using hpending)]
    exact State.notices_note rfl

end

/-! ## The balance of a parse -/

/-- The number of tokens that a parse reports as left over. -/
def dropped (ts : List Located) : Nat :=
  ((parse ts).events.toList.filterMap Event.dropped?).headD 0

/-- The tokens in front of those that are reported as left over. -/
def counted (ts : List Located) : List Token :=
  (ts.take (ts.length - dropped ts)).map Located.token

theorem layers_consume_init (ts : List Located) :
    ∃ q : Spine, q.tokens = beforeStray (ts.map Located.token) ∧
      (State.consume {} ts).layers = layersOf q := by
  obtain ⟨q, hrun, hq⟩ := layers_consume (s := {}) (p := {}) rfl ts
  exact ⟨q, Spine.run_eq_some_iff.1 hrun, hq⟩

/-- The texts that are given up, followed by those of the result, are the texts that count. -/
theorem texts_parse (ts : List Located) :
    (parse ts).events.toList.filterMap Event.discarded? ++ (parse ts).value.atoms =
      (beforeStray (ts.map Located.token)).filterMap Token.text? := by
  obtain ⟨q, -, hq⟩ := layers_consume_init ts
  have hnoted : (State.consume {} ts).noteUnclosed.texts = (State.consume {} ts).texts := by
    unfold State.noteUnclosed
    split
    · rfl
    · exact State.texts_note rfl
  have hend := texts_closeAll ((layers_noteUnclosed _).trans hq)
  rw [hnoted, texts_consume (p := {}) rfl, State.texts, State.layers, State.pending_closeAll] at hend
  simp only [List.reverse_singleton, List.flatMap_singleton] at hend
  exact hend

/-- The notices of a parse: the tokens that are left over, and the lists that are open. -/
theorem notices_parse (ts : List Located) :
    (parse ts).events.toList.filter (fun e => e.discarded?.isNone) =
      strayNotice 0 ts ++ unclosedNotice (unclosed (beforeStray (ts.map Located.token))) := by
  obtain ⟨q, htokens, hq⟩ := layers_consume_init ts
  rw [← htokens, Spine.unclosed_tokens]
  calc (parse ts).events.toList.filter (fun e => e.discarded?.isNone)
      = (State.consume {} ts).noteUnclosed.closeAll.notices := rfl
    _ = (State.consume {} ts).notices ++ unclosedNotice q.opened.length := by
        rw [notices_closeAll, notices_noteUnclosed hq]
    _ = strayNotice 0 ts ++ unclosedNotice q.opened.length := by
        rw [notices_consume (p := {}) rfl]
        rfl

theorem filterMap_notices {α : Type} {f : Event → Option α}
    (hf : ∀ e, f (.topLevelReplaced e) = none) (events : List Event) :
    (events.filter fun e => e.discarded?.isNone).filterMap f = events.filterMap f := by
  rw [List.filterMap_filter]
  congr 1
  funext e
  cases e <;> simp [Event.discarded?, hf]

/-- A notice about left-over tokens gives their number. -/
theorem dropped_strayNotice (ts : List Located) :
    ((strayNotice 0 ts).filterMap Event.dropped?).headD 0 =
      ts.length - ((beforeStray (ts.map Located.token)).length + 1) := by
  have hlen := List.length_drop (i := (beforeStray (ts.map Located.token)).length) (l := ts)
  unfold strayNotice
  rw [← beforeStray]
  cases hdrop : ts.drop (beforeStray (ts.map Located.token)).length with
  | nil =>
    rw [hdrop, List.length_nil] at hlen
    simp only [List.filterMap_nil, List.headD_nil]
    omega
  | cons stray rest =>
    rw [hdrop, List.length_cons] at hlen
    cases rest with
    | nil =>
      simp only [List.length_nil] at hlen
      simp only [List.filterMap_nil, List.headD_nil]
      omega
    | cons next rest =>
      simp only [List.filterMap_cons, Event.dropped?, List.filterMap_nil, List.headD_cons,
        List.length_cons] at hlen ⊢
      omega

theorem dropped_parse (ts : List Located) :
    dropped ts = ts.length - ((beforeStray (ts.map Located.token)).length + 1) := by
  have hunclosed : ∀ n, (unclosedNotice n).filterMap Event.dropped? = [] := by
    intro n
    unfold unclosedNotice
    split <;> rfl
  rw [dropped, ← filterMap_notices (fun _ => rfl), notices_parse, List.filterMap_append, hunclosed,
    List.append_nil, dropped_strayNotice]

theorem filterMap_unclosed?_parse (ts : List Located) :
    (parse ts).events.toList.filterMap Event.unclosed? =
      if 0 < unclosed (beforeStray (ts.map Located.token)) then
        [unclosed (beforeStray (ts.map Located.token))]
      else [] := by
  have hstray : (strayNotice 0 ts).filterMap Event.unclosed? = [] := by
    unfold strayNotice
    split <;> rfl
  rw [← filterMap_notices (fun _ => rfl), notices_parse, List.filterMap_append, hstray,
    List.nil_append, unclosedNotice]
  by_cases h : unclosed (beforeStray (ts.map Located.token)) = 0
  · rw [if_pos h, if_neg (by omega)]
    rfl
  · rw [if_neg h, if_pos (by omega)]
    rfl

/-- In front of the tokens that are left over stands what the parser takes in, with the stray
closing parenthesis if there is one. -/
theorem counted_cases (ts : List Located) :
    counted ts = beforeStray (ts.map Located.token) ∨
      counted ts = beforeStray (ts.map Located.token) ++ [.rparen] := by
  have h := dropped_parse ts
  rw [counted, List.map_take]
  rcases beforeStray_cases (ts.map Located.token) with hall | ⟨rest, hsplit, -⟩
  · rw [hall, List.length_map] at h
    rw [hall]
    exact .inl (List.take_of_length_le (by rw [List.length_map]; omega))
  · have hlen := congrArg List.length hsplit
    simp only [List.length_map, List.length_append, List.length_cons] at hlen
    have htake : ts.length - dropped ts =
        (beforeStray (ts.map Located.token) ++ [Token.rparen]).length := by
      rw [List.length_append, List.length_singleton]
      omega
    have hprefix : beforeStray (ts.map Located.token) ++ [Token.rparen] <+: ts.map Located.token :=
      ⟨rest, by rw [← List.append_cons, ← hsplit]⟩
    rw [htake]
    exact .inr (List.prefix_iff_eq_take.1 hprefix).symm

/-- A row of expressions whose tokens are closing parentheses only is empty. -/
theorem eq_nil_of_tokens_eq_rparen {es : List Expr}
    (h : ∀ t ∈ es.flatMap Expr.tokens, t = .rparen) : es = [] := by
  cases es with
  | nil => rfl
  | cons e es =>
    cases e with
    | atom text => cases h (.text text) (by simp)
    | list items => cases h .lparen (by simp)

/-- Tokens without a list and without a text flatten no expression, and only these do. -/
theorem eq_nil_iff_of_tokens {es : List Expr} {ts : List Token}
    (h : es.flatMap Expr.tokens = completed ts) :
    es = [] ↔ ts.count .lparen = 0 ∧ ts.filterMap Token.text? = [] := by
  constructor
  · intro hnil
    rw [hnil, completed] at h
    obtain rfl := (List.append_eq_nil_iff.1 h.symm).1
    simp
  · intro hbare
    obtain ⟨hlists, htexts⟩ := hbare
    apply eq_nil_of_tokens_eq_rparen
    intro t ht
    rw [h, completed, List.mem_append] at ht
    rcases ht with ht | ht
    · cases t with
      | lparen => exact absurd ht (List.count_eq_zero.1 hlists)
      | rparen => rfl
      | text text => exact absurd (List.filterMap_eq_nil_iff.1 htexts _ ht) (by simp [Token.text?])
    · exact List.eq_of_mem_replicate ht

theorem lists_parse (ts : List Located) :
    (parse ts).value.lists =
      if (beforeStray (ts.map Located.token)).count .lparen = 0 ∧
          (beforeStray (ts.map Located.token)).filterMap Token.text? = [] then 1
      else (beforeStray (ts.map Located.token)).count .lparen := by
  obtain ⟨es, hes, hvalue⟩ := exists_salvaged ts
  have hcount : Expr.listsAll es = (beforeStray (ts.map Located.token)).count .lparen := by
    rw [← Expr.count_lparen_flatMap_tokens, hes, completed, List.count_append,
      List.count_replicate]
    rfl
  rw [hvalue, lists_salvaged, hcount]
  simp only [eq_nil_iff_of_tokens hes]

theorem value_parse_of_bare {ts : List Located}
    (hlists : (beforeStray (ts.map Located.token)).count .lparen = 0)
    (htexts : (beforeStray (ts.map Located.token)).filterMap Token.text? = []) :
    (parse ts).value = .list [] := by
  obtain ⟨es, hes, hvalue⟩ := exists_salvaged ts
  obtain rfl := (eq_nil_iff_of_tokens hes).2 ⟨hlists, htexts⟩
  exact hvalue

theorem unclosed_eq_zero_of_stray {ts : List Token} (h : beforeStray ts ≠ ts) :
    unclosed (beforeStray ts) = 0 := by
  rcases beforeStray_cases ts with hall | ⟨rest, -, hopen⟩
  · exact absurd hall h
  · exact hopen

theorem filterMap_text?_counted (ts : List Located) :
    (counted ts).filterMap Token.text? =
      (beforeStray (ts.map Located.token)).filterMap Token.text? := by
  rcases counted_cases ts with h | h
  · rw [h]
  · rw [h, List.filterMap_append]
    simp [Token.text?]

theorem count_lparen_counted (ts : List Located) :
    (counted ts).count .lparen = (beforeStray (ts.map Located.token)).count .lparen := by
  rcases counted_cases ts with h | h
  · rw [h]
  · rw [h, List.count_append]
    rfl

end Lenient

/-- Of the tokens in front of those that are reported as left over, the lenient parser loses nothing.
Their texts are those that it reports as given up, followed by the atoms of the result; their lists
are the lists of the result, except that it makes one where there is neither a list nor a text; and
what ends inside lists is reported with their number. -/
theorem lenient_parse_conserves (ts : List Located) :
    (Lenient.counted ts).filterMap Token.text? =
        (Lenient.parse ts).events.toList.filterMap Event.discarded? ++
          (Lenient.parse ts).value.atoms ∧
      (Lenient.parse ts).value.lists =
        (if (Lenient.counted ts).count .lparen = 0 ∧
            (Lenient.counted ts).filterMap Token.text? = [] then 1
        else (Lenient.counted ts).count .lparen) ∧
      ((Lenient.counted ts).count .lparen = 0 → (Lenient.counted ts).filterMap Token.text? = [] →
        (Lenient.parse ts).value = .list []) ∧
      (Lenient.parse ts).events.toList.filterMap Event.unclosed? =
        if beforeStray (ts.map Located.token) = ts.map Located.token ∧
            0 < unclosed (ts.map Located.token) then
          [unclosed (ts.map Located.token)]
        else [] := by
  rw [Lenient.filterMap_text?_counted, Lenient.count_lparen_counted]
  refine ⟨(Lenient.texts_parse ts).symm, Lenient.lists_parse ts,
    Lenient.value_parse_of_bare, ?_⟩
  rw [Lenient.filterMap_unclosed?_parse]
  by_cases hall : beforeStray (ts.map Located.token) = ts.map Located.token
  · simp only [hall, true_and]
  · rw [if_neg (by rw [Lenient.unclosed_eq_zero_of_stray hall]; exact Nat.lt_irrefl 0),
      if_neg fun h => hall h.1]

end Sexp
