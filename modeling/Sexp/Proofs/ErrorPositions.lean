import Sexp.Proofs.Viability
import Sexp.Proofs.TokenPositions
import Sexp.Proofs.Grammar

/-!
# Where errors point

A strict reader rejects a text at one of its tokens, or for a list that is open at the end. Either
way the error has the offset of a token, and what the parser knows of the tokens in front of it is
true of the parentheses in front of that offset in the text.

* `noStray_filterMap_iff`: prefixes of a row, told by its parentheses.
* `Strict.noStray_of_run`, `Strict.count_of_run`: the text in front of an error.
* `pointsInto_of_raisesAt`, `pointsInto_of_opened`: the two kinds of errors.
* `read_error_points`: what stands where an error points.
-/

namespace Sexp

open Sexp.Expr (isAtomChar)

/-- Every closing parenthesis has an opening one in front of it as its partner. -/
def NoStray (ps : List Paren) : Prop :=
  ∀ qs, qs <+: ps → qs.count .closing ≤ qs.count .opening

/-- What stands in the text where an error points, if `limit` lists may be open at a time. -/
def ReadError.PointsInto (limit : Nat) (cs : List Char) : ReadError → Prop
  | unexpectedClose offset =>
    cs[offset]? = some ')' ∧ (cs.take offset).count ')' = (cs.take offset).count '('
  | unclosedList offset => LastUnclosed '(' ')' cs offset
  | multipleTopLevel offset =>
    (cs[offset]? = some '(' ∨ ∃ j, Text.AtomRun cs offset j) ∧
      (cs.take offset).count ')' = (cs.take offset).count '(' ∧ ∃ c ∈ cs.take offset, c ≠ ' '
  | tooDeep offset depth =>
    depth = limit ∧ cs[offset]? = some '(' ∧ Text.unclosed (cs.take offset) = limit

/-! ## Counting parentheses -/

section
variable {α : Type} [BEq α] [LawfulBEq α] {a b : α}

/-- A row has no stray closing parenthesis iff no prefix of it closes more than it opens. -/
theorem noStray_filterMap_iff (hab : a ≠ b) {l : List α} :
    NoStray (l.filterMap (parenOf a b)) ↔ ∀ n, (l.take n).count b ≤ (l.take n).count a := by
  constructor
  · intro h n
    have hle := h _ ((List.take_prefix n l).filterMap (parenOf a b))
    rwa [count_opening, count_closing hab] at hle
  · intro h qs hqs
    obtain ⟨l', hl', rfl⟩ := List.prefix_filterMap_iff.1 hqs
    rw [count_opening, count_closing hab, List.prefix_iff_eq_take.1 hl']
    exact h l'.length

end

theorem Text.noStray_iff {cs : List Char} :
    NoStray (cs.filterMap Text.paren?) ↔ ∀ n, (cs.take n).count ')' ≤ (cs.take n).count '(' :=
  noStray_filterMap_iff (by decide)

theorem noStray_of_run {s : Spine} {ts : List Token} (h : Spine.run {} ts = some s) :
    NoStray (ts.filterMap Token.paren?) :=
  (noStray_filterMap_iff (by decide)).2 (Spine.count_take_le h)

/-- The tokens of a text have as many parentheses as the text. -/
theorem count_lexemes (keep : Bool) (offset : Nat) (cs : List Char) :
    ((lexemes keep offset cs).map Located.token).count .lparen = cs.count '(' ∧
      ((lexemes keep offset cs).map Located.token).count .rparen = cs.count ')' :=
  count_eq_of_filterMap_eq (by decide) (by decide) (parens_lexemes keep offset cs)

/-! ## The text in front of an error -/

namespace Strict

variable {limit : Nat} {cs : List Char} {s : State}

theorem spine_of_run {ts : List Located} (h : run limit ts = .ok s) :
    Spine.run {} (ts.map Located.token) = some s.spine :=
  Spine.run_eq_some_iff.2 (run_eq_ok h).2

theorem noStray_of_run (h : run limit (lexemes true 0 cs) = .ok s) :
    NoStray (cs.filterMap Text.paren?) := by
  rw [← parens_lexemes true 0]
  exact Sexp.noStray_of_run (spine_of_run h)

theorem count_of_run (h : run limit (lexemes true 0 cs) = .ok s) :
    s.opened.length + cs.count ')' = cs.count '(' := by
  have hcount := Spine.count_run (spine_of_run h)
  rwa [length_opened_spine, (count_lexemes true 0 cs).1, (count_lexemes true 0 cs).2,
    List.length_nil, Nat.zero_add] at hcount

/-- Where an expression has been read, the text is not empty. -/
theorem exists_ne_space_of_run (h : run limit (lexemes true 0 cs) = .ok s)
    (htop : s.spine.top ≠ []) : ∃ c ∈ cs, c ≠ ' ' := by
  apply Classical.byContradiction
  intro hnone
  have hspaces : ∀ c ∈ cs, c = ' ' := fun c hc =>
    Classical.byContradiction fun hne => hnone ⟨c, hc, hne⟩
  rw [lexemes_eq_nil_iff.2 hspaces] at h
  cases h
  exact htop rfl

end Strict

/-! ## Where errors point -/

theorem Strict.Rejects.offset_eq {limit : Nat} {s : Spine} {tok : Located} {err : ReadError}
    (h : Rejects limit s tok err) : err.offset = tok.offset := by
  cases h <;> rfl

section
variable {limit : Nat} {keep : Bool} {cs : List Char} {err : ReadError}

/-- A token that the parser rejects is what its error says it is. -/
theorem pointsInto_of_raisesAt {i : Nat}
    (h : Strict.RaisesAt limit (lexemes keep 0 cs) i err) :
    err.offset < cs.length ∧ err.PointsInto limit cs ∧
      ∀ k ≤ err.offset, (cs.take k).count ')' ≤ (cs.take k).count '(' := by
  obtain ⟨s, tok, hsplit, hs, hrej⟩ := h.rejects
  have hmem : tok ∈ lexemes keep 0 cs := by
    rw [hsplit]
    exact List.mem_append_right _ List.mem_cons_self
  have htok := tokenAt_of_mem_lexemes hmem
  obtain ⟨ds, es, hcs, hoffset, hpre, -⟩ := lexemes_eq_append_cons hsplit
  have htake : cs.take tok.offset = ds := by
    rw [hcs, hoffset, Nat.zero_add, List.take_left' rfl]
  rw [hpre, ← htake] at hs
  have hcount := Strict.count_of_run hs
  refine ⟨?_, ?_, ?_⟩
  · rw [hrej.offset_eq, ← Nat.zero_add cs.length]
    exact (offset_of_mem_lexemes hmem).2
  · cases hrej with
    | unexpectedClose hopen =>
      rw [← Strict.length_opened_spine, hopen, List.length_nil, Nat.zero_add] at hcount
      cases htok with
      | rparen hi => exact ⟨hi, hcount⟩
    | multipleTopLevel ht hopen htop =>
      rw [← Strict.length_opened_spine, hopen, List.length_nil, Nat.zero_add] at hcount
      refine ⟨?_, hcount, Strict.exists_ne_space_of_run hs htop⟩
      cases htok with
      | lparen hi => exact .inl hi
      | rparen hi => exact absurd rfl ht
      | text hrun => exact .inr ⟨_, hrun⟩
    | tooDeep htop hlen =>
      cases htok with
      | lparen hi =>
        refine ⟨rfl, hi, ?_⟩
        rw [← unclosed_lexemes true 0, Strict.unclosed_of_run hs, ← Strict.length_opened_spine, hlen]
  · intro k hk
    rw [hrej.offset_eq] at hk
    have hstray := Text.noStray_iff.1 (Strict.noStray_of_run hs) k
    rwa [List.take_take, Nat.min_eq_left hk] at hstray

/-- At the end of the text, the innermost list that is open is the last one that is never closed. -/
theorem pointsInto_of_opened {s : Strict.State} {frame : Strict.Frame} {outer : List Strict.Frame}
    (hs : Strict.run limit (lexemes keep 0 cs) = .ok s) (hopened : s.opened = frame :: outer) :
    frame.offset < cs.length ∧ LastUnclosed '(' ')' cs frame.offset ∧
      ∀ k ≤ frame.offset, (cs.take k).count ')' ≤ (cs.take k).count '(' := by
  have hunfolds := Strict.unfolds_run hs
  rw [hopened] at hunfolds
  generalize hts : lexemes keep 0 cs = ts at hunfolds
  cases hunfolds with
  | @inside pre us _ _ _ hitems =>
    rw [hts] at hs
    obtain ⟨ds, es, hcs, hoffset, hpre, hus⟩ := lexemes_eq_append_cons hts
    replace hoffset : frame.offset = ds.length := hoffset.trans (Nat.zero_add _)
    obtain ⟨r, hr⟩ := Strict.exists_run_of_append hs
    rw [hpre] at hr
    -- behind the parenthesis stand complete items, and spaces or a text block that is dropped
    have hparens : es.filterMap Text.paren? =
        (frame.items.toList.flatMap Expr.tokens).filterMap Token.paren? := by
      rw [← hitems, hus, parens_lexemes]
    have hrun : Spine.run {} (frame.items.toList.flatMap Expr.tokens) =
        some ⟨frame.items.toList, []⟩ := Spine.run_eq_some_iff.2 (Spine.tokens_complete _)
    have hstray : NoStray (es.filterMap Text.paren?) := hparens ▸ noStray_of_run hrun
    have hcount : es.count ')' = es.count '(' := by
      obtain ⟨hopening, hclosing⟩ := count_eq_of_filterMap_eq (by decide) (by decide) hparens
      rw [hopening, hclosing]
      exact count_flatMap_tokens _
    refine ⟨?_, ?_, ?_⟩
    · rw [hoffset, hcs, List.length_append]
      exact Nat.lt_add_of_pos_right (Nat.succ_pos _)
    · rw [hcs, hoffset]
      exact lastUnclosed_of_balanced (by decide) (Text.noStray_iff.1 hstray) hcount
    · intro k hk
      rw [hcs, List.take_append_of_le_length (by omega)]
      exact Text.noStray_iff.1 (Strict.noStray_of_run hr) k

end

/-- The error of a strict reader points at a character of the text, and in front of it no prefix
closes more lists than it opens. An unexpected parenthesis is a closing one behind as many closing as
opening ones; an unclosed list is the last one that is never closed; a second expression begins there,
behind balanced parentheses and something else than spaces; and where a list is too deep, it is opened
inside as many unclosed ones as the limit allows. -/
theorem read_error_points {r : Reader} {src : String} {err : ReadError}
    (h : (r.read src).value = .error err) :
    r.isStrict = true ∧ err.offset < src.toList.length ∧
      err.PointsInto r.maxDepth src.toList ∧
        ∀ k ≤ err.offset, (src.toList.take k).count ')' ≤ (src.toList.take k).count '(' := by
  cases hstrict : r.isStrict with
  | false =>
    rw [Reader.read_of_not_strict hstrict] at h
    cases h
  | true =>
    rw [Reader.read_value_of_strict hstrict] at h
    refine ⟨rfl, ?_⟩
    rcases Strict.parse_eq_error_iff.1 h with ⟨i, hi⟩ | ⟨s, frame, outer, hs, hopened, rfl⟩
    · exact pointsInto_of_raisesAt hi
    · exact pointsInto_of_opened hs hopened

/-- The first list is closed by nothing, and an accent is one character. -/
theorem read_error_points_unclosed :
    (Reader.strict.read "é(à(b)").value = .error (.multipleTopLevel 1) ∧
      (Reader.strict.read "(à(b)").value = .error (.unclosedList 0) ∧
        LastUnclosed '(' ')' "(à(b)".toList 0 := by
  have hread : (Reader.strict.read "(à(b)").value = .error (.unclosedList 0) := by cbv
  exact ⟨by cbv, hread, (read_error_points hread).2.2.1⟩

end Sexp
