import Sexp.Proofs.Viability
import Sexp.Proofs.Conservation

/-!
# What is salvaged without a report

The lenient parser reports the expressions that it gives up, the tokens behind a stray closing
parenthesis and the lists that are open at the end. It says nothing of a stray closing parenthesis
that is the last token, nor of expressions that a complete list outside any other takes in.

* `texts_givenUp`: the expressions that are given up are the atoms in front of the first list, or all
  but the last where there is no list.
* `events_parse_eq_nil_iff`: the rows of which nothing is reported.
* `parse_eq_error_iff_of_length_le`: what a strict parser with room enough rejects.
* `lenient_parse_reports`: of the rows that are rejected, those that are reported.
-/

namespace Sexp

/-- Of a row of expressions outside any list, those that what follows them takes the place of. -/
def givenUp (es : List Expr) : List Expr :=
  if es.all Expr.isAtom then es.dropLast else es.takeWhile Expr.isAtom

/-- Nothing or one expression, and behind it, as the last token, a stray closing parenthesis. -/
def EndsStray (ts : List Token) : Prop :=
  ∃ es : List Expr, es.length ≤ 1 ∧ ts = es.flatMap Expr.tokens ++ [.rparen]

/-- A list and other expressions behind it, all of them complete, and at most one stray closing
parenthesis, as the last token. -/
def Absorbs (ts : List Token) : Prop :=
  ∃ items rest, rest ≠ [] ∧
    (ts = (Expr.list items :: rest).flatMap Expr.tokens ∨
      ts = (Expr.list items :: rest).flatMap Expr.tokens ++ [.rparen])

/-! ## What is given up -/

theorem isAtom_of_mem_givenUp {es : List Expr} {e : Expr} (h : e ∈ givenUp es) :
    e.isAtom = true := by
  unfold givenUp at h
  split at h
  · rename_i hall
    exact List.all_eq_true.1 hall e (List.dropLast_subset es h)
  · exact List.mem_takeWhile_imp h

/-- Nothing is given up of one expression, and of those that begin with a list. -/
theorem givenUp_eq_nil_iff {es : List Expr} :
    givenUp es = [] ↔ es.length ≤ 1 ∨ ∃ items rest, es = .list items :: rest := by
  cases es with
  | nil => simp [givenUp]
  | cons e es =>
    cases e with
    | list items => simp [givenUp, Expr.isAtom]
    | atom text =>
      by_cases hall : es.all Expr.isAtom = true
      · cases es <;> simp_all [givenUp, Expr.isAtom]
      · have hne : es ≠ [] := fun hnil => hall (by rw [hnil]; rfl)
        simp [givenUp, Expr.isAtom, hall, hne]

/-- What is given up, followed by what is salvaged, has all the texts. -/
theorem texts_givenUp (es : List Expr) :
    (givenUp es).flatMap Expr.atoms ++ (salvaged es).atoms = es.flatMap Expr.atoms := by
  rcases Lenient.atoms_or_first_list es with h | ⟨front, items, rest, rfl, h⟩
  · have hall : es.all Expr.isAtom = true := List.all_eq_true.2 h
    have hsalvaged : salvaged es = es.getLast?.getD (.list []) := by
      rw [salvaged, List.dropWhile_eq_nil_iff.2 h]
    rw [givenUp, if_pos hall, hsalvaged]
    induction es using List.reverseRecOn with
    | nil => simp
    | append_singleton es e _ => simp
  · have hsome : (front ++ Expr.list items :: rest).all Expr.isAtom = false := by
      simp [Expr.isAtom]
    have hfront : (front ++ Expr.list items :: rest).takeWhile Expr.isAtom = front := by
      rw [List.takeWhile_append_of_pos h]
      simp [Expr.isAtom]
    have hsalvaged : salvaged (front ++ .list items :: rest) = .list (items ++ rest) := by
      rw [salvaged, List.dropWhile_append_of_pos h]
      rfl
    rw [givenUp, hsome, hfront, hsalvaged]
    simp

/-! ## The texts of tokens -/

theorem filterMap_text?_flatMap_of {es : List Expr}
    (h : ∀ e ∈ es, e.tokens.filterMap Token.text? = e.atoms) :
    (es.flatMap Expr.tokens).filterMap Token.text? = es.flatMap Expr.atoms := by
  induction es with
  | nil => rfl
  | cons e es ih =>
    rw [List.flatMap_cons, List.flatMap_cons, List.filterMap_append, h e List.mem_cons_self,
      ih fun e he => h e (List.mem_cons_of_mem _ he)]

theorem filterMap_text?_tokens (e : Expr) : e.tokens.filterMap Token.text? = e.atoms := by
  induction e using Expr.recOnItems with
  | atom text => simp [Token.text?]
  | list items ih =>
    rw [Expr.tokens_list, Expr.atoms_list, ← filterMap_text?_flatMap_of ih, List.filterMap_cons,
      List.filterMap_append]
    simp [Token.text?]

namespace Lenient

variable {ts : List Located} {es : List Expr}

/-- The texts that the parser reports as given up are those of the expressions that are. -/
theorem discarded_parse
    (h : es.flatMap Expr.tokens = completed (beforeStray (ts.map Located.token))) :
    (parse ts).events.toList.filterMap Event.discarded? = (givenUp es).flatMap Expr.atoms := by
  have htexts : (beforeStray (ts.map Located.token)).filterMap Token.text? =
      es.flatMap Expr.atoms := by
    rw [← filterMap_text?_flatMap_of fun e _ => filterMap_text?_tokens e, h, completed,
      List.filterMap_append]
    simp [Token.text?]
  have hparse := texts_parse ts
  rw [htexts, ← texts_givenUp es, parse_value h] at hparse
  exact List.append_cancel_right hparse

/-! ## Rows of which nothing is reported -/

/-- Everything that the parser reports is at the level of debugging. -/
theorem level_of_mem_events {e : Event} (h : e ∈ (parse ts).events) : e.level = .debug := by
  cases hdiscarded : e.discarded? with
  | some text =>
    cases e with
    | topLevelReplaced old => rfl
    | _ => cases hdiscarded
  | none =>
    have hnotice : e ∈ (parse ts).events.toList.filter fun e => e.discarded?.isNone :=
      List.mem_filter.2 ⟨Array.mem_toList_iff.2 h, by rw [hdiscarded]; rfl⟩
    rw [notices_parse, List.mem_append] at hnotice
    unfold strayNotice unclosedNotice at hnotice
    rcases hnotice with hnotice | hnotice
    · split at hnotice
      · rw [List.mem_singleton.1 hnotice]
        rfl
      · cases hnotice
    · split at hnotice
      · cases hnotice
      · rw [List.mem_singleton.1 hnotice]
        rfl

theorem strayNotice_eq_nil_iff :
    strayNotice 0 ts = [] ↔ ts.length ≤ (beforeStray (ts.map Located.token)).length + 1 := by
  have hlen := List.length_drop (i := (beforeStray (ts.map Located.token)).length) (l := ts)
  unfold strayNotice
  rw [← beforeStray]
  split
  · rename_i stray next rest hdrop
    rw [hdrop, List.length_cons, List.length_cons] at hlen
    simp only [List.cons_ne_nil, false_iff]
    omega
  · rename_i hshort
    refine iff_of_true rfl ?_
    cases hdrop : ts.drop (beforeStray (ts.map Located.token)).length with
    | nil =>
      rw [hdrop, List.length_nil] at hlen
      omega
    | cons stray rest =>
      cases rest with
      | nil =>
        rw [hdrop, List.length_singleton] at hlen
        omega
      | cons next rest => exact absurd hdrop (hshort stray next rest)

theorem unclosedNotice_eq_nil_iff {n : Nat} : unclosedNotice n = [] ↔ n = 0 := by
  unfold unclosedNotice
  split <;> simp_all

theorem flatMap_atoms_eq_nil_iff (h : ∀ e ∈ es, e.isAtom = true) :
    es.flatMap Expr.atoms = [] ↔ es = [] := by
  cases es with
  | nil => simp
  | cons e es =>
    cases e with
    | atom text => simp
    | list items => cases h _ List.mem_cons_self

/-- Nothing is reported iff there is nothing of each kind to report. -/
theorem events_parse_eq_nil_iff_of_completed
    (h : es.flatMap Expr.tokens = completed (beforeStray (ts.map Located.token))) :
    (parse ts).events.toList = [] ↔ givenUp es = [] ∧
      ts.length ≤ (beforeStray (ts.map Located.token)).length + 1 ∧
        unclosed (beforeStray (ts.map Located.token)) = 0 := by
  have hsplit : (parse ts).events.toList = [] ↔
      (parse ts).events.toList.filterMap Event.discarded? = [] ∧
        (parse ts).events.toList.filter (fun e => e.discarded?.isNone) = [] := by
    rw [List.filterMap_eq_nil_iff, List.filter_eq_nil_iff, List.eq_nil_iff_forall_not_mem]
    constructor
    · intro hnone
      exact ⟨fun e he => absurd he (hnone e), fun e he => absurd he (hnone e)⟩
    · intro ⟨hreplaced, hnotice⟩ e he
      exact hnotice e he (by rw [hreplaced e he]; rfl)
  rw [hsplit, discarded_parse h, notices_parse, List.append_eq_nil_iff, strayNotice_eq_nil_iff,
    unclosedNotice_eq_nil_iff, flatMap_atoms_eq_nil_iff fun e he => isAtom_of_mem_givenUp he]

/-- The parser reports nothing iff the row is made of complete expressions, none of which it gives
up, and at most one stray closing parenthesis, as the last token. -/
theorem events_parse_eq_nil_iff : (parse ts).events.toList = [] ↔
    ∃ es : List Expr, givenUp es = [] ∧ (ts.map Located.token = es.flatMap Expr.tokens ∨
      ts.map Located.token = es.flatMap Expr.tokens ++ [.rparen]) := by
  constructor
  · intro hevents
    obtain ⟨es, hes, -⟩ := exists_salvaged ts
    obtain ⟨hgiven, hlen, hopen⟩ := (events_parse_eq_nil_iff_of_completed hes).1 hevents
    rw [completed, hopen, List.replicate_zero, List.append_nil] at hes
    refine ⟨es, hgiven, ?_⟩
    rw [hes]
    rcases beforeStray_cases (ts.map Located.token) with hall | ⟨rest, hsplit, -⟩
    · exact .inl hall.symm
    · have hlength := congrArg List.length hsplit
      rw [List.length_map, List.length_append, List.length_cons] at hlength
      obtain rfl : rest = [] := List.length_eq_zero_iff.1 (by omega)
      exact .inr hsplit
  · intro hrow
    obtain ⟨es, hgiven, hts⟩ := hrow
    -- the spine of the expressions is what counts of the row
    have hspine := Spine.tokens_complete es
    have hbefore : beforeStray (ts.map Located.token) = es.flatMap Expr.tokens := by
      rcases hts with hts | hts
      · rw [hts, ← hspine, Spine.beforeStray_tokens]
      · rw [hts, ← hspine, Spine.beforeStray_tokens_append]
        simp [beforeStrayFrom]
    have hopen : unclosed (es.flatMap Expr.tokens) = 0 := by
      rw [← hspine, Spine.unclosed_tokens]
      rfl
    have hes : es.flatMap Expr.tokens = completed (beforeStray (ts.map Located.token)) := by
      rw [hbefore, completed, hopen, List.replicate_zero, List.append_nil]
    refine (events_parse_eq_nil_iff_of_completed hes).2 ⟨hgiven, ?_, by rw [hbefore, hopen]⟩
    rw [hbefore, ← List.length_map (f := Located.token)]
    rcases hts with hts | hts
    · rw [hts]
      exact Nat.le_succ _
    · rw [hts, List.length_append]
      exact Nat.le_refl _

theorem exists_debug_iff :
    (∃ e ∈ (parse ts).events, e.level = .debug) ↔ (parse ts).events.toList ≠ [] := by
  constructor
  · intro ⟨e, he, _⟩
    exact List.ne_nil_of_mem (Array.mem_toList_iff.2 he)
  · intro hne
    obtain ⟨e, he⟩ := List.exists_mem_of_ne_nil _ hne
    exact ⟨e, Array.mem_toList_iff.1 he, level_of_mem_events (Array.mem_toList_iff.1 he)⟩

end Lenient

/-! ## Room enough -/

namespace Expr

theorem heightAll_le_of {es : List Expr} (h : ∀ e ∈ es, e.height ≤ e.lists) :
    heightAll es ≤ listsAll es := by
  induction es with
  | nil => exact Nat.le_refl 0
  | cons e es ih =>
    have hhead := h e List.mem_cons_self
    have htail := ih fun e he => h e (List.mem_cons_of_mem _ he)
    rw [heightAll, listsAll]
    omega

/-- Every level of an expression has a list of its own. -/
theorem height_le_lists (e : Expr) : e.height ≤ e.lists := by
  induction e using recOnItems with
  | atom text => exact Nat.le_refl 0
  | list items ih =>
    rw [height, lists]
    exact Nat.succ_le_succ (heightAll_le_of ih)

end Expr

/-- With as much room as there are tokens, a row is rejected iff it is neither empty nor one
expression. -/
theorem Strict.parse_eq_error_iff_of_length_le {limit : Nat} {ts : List Located}
    (h : ts.length ≤ limit) :
    (∃ err, parse limit ts = .error err) ↔ ts ≠ [] ∧ ¬ IsComplete (ts.map Located.token) := by
  have hok : (∃ e, parse limit ts = .ok e) ↔ ts = [] ∨ IsComplete (ts.map Located.token) := by
    simp only [parse_eq_ok_iff]
    constructor
    · intro ⟨e, he⟩
      rcases he with ⟨hnil, -⟩ | ⟨htokens, -⟩
      · exact .inl hnil
      · exact .inr ⟨e, htokens⟩
    · intro hts
      rcases hts with hnil | ⟨e, htokens⟩
      · exact ⟨_, .inl ⟨hnil, rfl⟩⟩
      · have hlists : e.lists ≤ ts.length := by
          rw [← Expr.count_tokens, ← htokens, ← List.length_map (f := Located.token)]
          exact List.count_le_length
        exact ⟨e, .inr ⟨htokens, (e.height_le_lists.trans hlists).trans h⟩⟩
  rw [← not_or, ← hok]
  cases parse limit ts <;> simp

/-! ## What is reported -/

/-- Of the rows that are rejected for another reason than their depth, the lenient parser reports all
but those that end with a stray closing parenthesis behind nothing or one expression. The rows that
a complete list takes expressions into are left aside here. -/
theorem lenient_parse_reports {limit : Nat} {ts : List Located} (h : ts.length ≤ limit) :
    ((∃ err, Strict.parse limit ts = .error err) ↔
        ts ≠ [] ∧ ¬ IsComplete (ts.map Located.token)) ∧
      ((∃ err, Strict.parse limit ts = .error err) → ¬ Absorbs (ts.map Located.token) →
        ((∃ e ∈ (Lenient.parse ts).events, e.level = .debug) ↔
          ¬ EndsStray (ts.map Located.token))) := by
  have hrejected := Strict.parse_eq_error_iff_of_length_le h
  refine ⟨hrejected, ?_⟩
  intro herr habsorbs
  obtain ⟨hne, hcomplete⟩ := hrejected.1 herr
  rw [Lenient.exists_debug_iff, ne_eq, Lenient.events_parse_eq_nil_iff]
  refine not_congr ⟨?_, ?_⟩
  · intro ⟨es, hgiven, hts⟩
    have hlength : es.length ≤ 1 := by
      rcases givenUp_eq_nil_iff.1 hgiven with hlength | ⟨items, rest, rfl⟩
      · exact hlength
      · by_cases hrest : rest = []
        · rw [hrest]
          exact Nat.le_refl 1
        · exact absurd ⟨items, rest, hrest, hts⟩ habsorbs
    rcases hts with hts | hts
    · match es, hlength with
      | [], _ => exact absurd (List.map_eq_nil_iff.1 hts) hne
      | [e], _ => exact absurd ⟨e, by rw [hts, List.flatMap_singleton]⟩ hcomplete
    · exact ⟨es, hlength, hts⟩
  · intro ⟨es, hlength, hts⟩
    exact ⟨es, givenUp_eq_nil_iff.2 (.inl hlength), .inr hts⟩

/-- Two atoms: the first one is given up, and reported. -/
theorem lenient_parse_reports_second :
    Strict.parse 2 [⟨.text "a", 0⟩, ⟨.text "b", 2⟩] = .error (.multipleTopLevel 2) ∧
      ∃ e ∈ (Lenient.parse [⟨.text "a", 0⟩, ⟨.text "b", 2⟩]).events, e.level = .debug := by
  have hparse : Strict.parse 2 [⟨.text "a", 0⟩, ⟨.text "b", 2⟩] = .error (.multipleTopLevel 2) := rfl
  have habsorbs : ¬ Absorbs ([⟨.text "a", 0⟩, ⟨.text "b", 2⟩].map Located.token) := by
    intro ⟨items, rest, _, hts⟩
    simp at hts
  have hstray : ¬ EndsStray ([⟨.text "a", 0⟩, ⟨.text "b", 2⟩].map Located.token) := by
    intro ⟨es, _, hts⟩
    have hlast := congrArg List.getLast? hts
    simp at hlast
  exact ⟨hparse, ((lenient_parse_reports (Nat.le_refl 2)).2 ⟨_, hparse⟩ habsorbs).2 hstray⟩

/-- A stray closing parenthesis that is the last token is rejected, and nothing is reported. -/
theorem lenient_parse_unreported :
    Strict.parse 2 [⟨.text "a", 0⟩, ⟨.rparen, 1⟩] = .error (.unexpectedClose 1) ∧
      ¬ ∃ e ∈ (Lenient.parse [⟨.text "a", 0⟩, ⟨.rparen, 1⟩]).events, e.level = .debug := by
  refine ⟨rfl, ?_⟩
  rw [Lenient.exists_debug_iff, ne_eq, not_not, Lenient.events_parse_eq_nil_iff]
  exact ⟨[.atom "a"], rfl, .inr (by simp)⟩

end Sexp
