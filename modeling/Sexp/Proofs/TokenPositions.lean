import Sexp.Proofs.ScanRun
import Sexp.Proofs.Layout
import Mathlib.Data.List.Induction

/-!
# Tokens by their positions

What the scanner finds, said of the positions in the text alone: a parenthesis is a token where it
stands, a text block is a longest run of atom characters, and there are no other tokens. The scanner
that drops trailing text leaves out the run that lasts to the end of the text, and reports it.

* `atomRun_iff`: a longest run cuts the text into three.
* `Scanner.pending_foldl_append`: what is pending at the end is the run that lasts to it.
* `mem_lexemes_iff`: the tokens are those that stand in the text.
* `pairwise_offset_lexemes`: they come in the order of their offsets.
* `scan_exact`: all of it for both scanners, with the events.
-/

namespace Sexp

open Sexp.Expr (isAtomChar IsAtomText)

namespace Text

/-- The characters from `i` up to `j` are a longest run of atom characters: the run is not empty and
can be extended on neither side. -/
structure AtomRun (cs : List Char) (i j : Nat) : Prop where
  nonempty : i < j
  within : j ≤ cs.length
  inside : ∀ k c, i ≤ k → k < j → cs[k]? = some c → isAtomChar c = true
  left : ∀ k c, k + 1 = i → cs[k]? = some c → isAtomChar c = false
  right : ∀ c, cs[j]? = some c → isAtomChar c = false

/-- The characters from `i` up to `j`. -/
def slice (cs : List Char) (i j : Nat) : String :=
  String.ofList ((cs.drop i).take (j - i))

/-- The tokens of a text, with the positions where they stand. -/
inductive TokenAt (cs : List Char) : Located → Prop
  | lparen {i : Nat} : cs[i]? = some '(' → TokenAt cs ⟨.lparen, i⟩
  | rparen {i : Nat} : cs[i]? = some ')' → TokenAt cs ⟨.rparen, i⟩
  | text {i j : Nat} : AtomRun cs i j → TokenAt cs ⟨.text (slice cs i j), i⟩

end Text

/-- The text block that a scan reports as unterminated, with its offset. -/
def Event.unterminated? : Event → Option (String × Nat)
  | unterminatedText dropped offset => some (dropped, offset)
  | _ => none

/-! ## Longest runs -/

/-- A longest run cuts the text into what is in front of it, the run, and what is behind it. -/
theorem atomRun_iff {cs : List Char} {i j : Nat} :
    Text.AtomRun cs i j ↔ ∃ pre word post, cs = pre ++ (word ++ post) ∧ i = pre.length ∧
      j = i + word.length ∧ word ≠ [] ∧ (∀ c ∈ word, isAtomChar c = true) ∧
      EndsBlock pre.reverse ∧ EndsBlock post := by
  constructor
  · intro h
    have hij := h.nonempty
    have hlen := h.within
    refine ⟨cs.take i, (cs.drop i).take (j - i), cs.drop j, ?_, ?_, ?_, ?_, ?_, ?_, ?_⟩
    · have hdrop : cs.drop j = (cs.drop i).drop (j - i) := by
        rw [List.drop_drop, Nat.add_sub_cancel' (Nat.le_of_lt hij)]
      rw [hdrop, List.take_append_drop, List.take_append_drop]
    · rw [List.length_take]
      omega
    · rw [List.length_take, List.length_drop]
      omega
    · intro hnil
      have := congrArg List.length hnil
      rw [List.length_take, List.length_drop, List.length_nil] at this
      omega
    · intro c hc
      obtain ⟨k, hk⟩ := List.mem_iff_getElem?.1 hc
      rw [List.getElem?_take] at hk
      split at hk
      · rw [List.getElem?_drop] at hk
        exact h.inside (i + k) c (by omega) (by omega) hk
      · cases hk
    · intro c hc
      rw [List.head?_reverse, List.getLast?_eq_getElem?, List.length_take, List.getElem?_take,
        Option.mem_def] at hc
      split at hc
      · exact h.left _ c (by omega) hc
      · cases hc
    · intro c hc
      rw [List.head?_drop, Option.mem_def] at hc
      exact h.right c hc
  · rintro ⟨pre, word, post, rfl, rfl, rfl, hne, hword, hpre, hpost⟩
    have hpos := List.length_pos_iff.2 hne
    refine ⟨by omega, by simp, ?_, ?_, ?_⟩
    · intro k c hk hk' hc
      rw [List.getElem?_append_right hk, List.getElem?_append_left (by omega)] at hc
      exact hword c (List.mem_of_getElem? hc)
    · intro k c hk hc
      rw [List.getElem?_append_left (by omega)] at hc
      apply hpre c
      rw [List.head?_reverse, List.getLast?_eq_getElem?, Option.mem_def, ← hc]
      congr 1
      omega
    · intro c hc
      rw [List.getElem?_append_right (by omega), List.getElem?_append_right (by omega)] at hc
      apply hpost c
      rw [List.head?_eq_getElem?, Option.mem_def, ← hc]
      congr 1
      omega

theorem slice_append (pre word post : List Char) :
    Text.slice (pre ++ (word ++ post)) pre.length (pre.length + word.length) =
      String.ofList word := by
  rw [Text.slice, List.drop_left' rfl, Nat.add_sub_cancel_left, List.take_left' rfl]

theorem exists_cut_of_getElem? {cs : List Char} {i : Nat} {c : Char} (h : cs[i]? = some c) :
    ∃ pre post, cs = pre ++ c :: post ∧ i = pre.length := by
  refine ⟨cs.take i, cs.drop (i + 1), eq_take_append_cons_drop h, ?_⟩
  rw [List.length_take_of_le (Nat.le_of_lt (List.getElem?_eq_some_iff.1 h).1)]

/-- A token stands in a text iff it can be cut out there; a text block needs a character that ends
it, or nothing, on both sides. -/
theorem tokenAt_iff {cs : List Char} {tok : Located} :
    Text.TokenAt cs tok ↔ ∃ pre post, cs = pre ++ (tok.token.chars ++ post) ∧
      tok.offset = pre.length ∧ tok.token.Before post ∧
      (tok.token.isText = true → EndsBlock pre.reverse) := by
  constructor
  · intro h
    cases h with
    | lparen hi =>
      obtain ⟨pre, post, hcs, hlen⟩ := exists_cut_of_getElem? hi
      exact ⟨pre, post, hcs, hlen, trivial, fun h => by cases h⟩
    | rparen hi =>
      obtain ⟨pre, post, hcs, hlen⟩ := exists_cut_of_getElem? hi
      exact ⟨pre, post, hcs, hlen, trivial, fun h => by cases h⟩
    | text hrun =>
      obtain ⟨pre, word, post, rfl, rfl, rfl, hne, hword, hpre, hpost⟩ := atomRun_iff.1 hrun
      rw [slice_append]
      refine ⟨pre, post, by simp [Token.chars], rfl, ⟨⟨by simpa using hne, ?_⟩, hpost⟩, fun _ => hpre⟩
      rwa [String.toList_ofList]
  · rintro ⟨pre, post, hcs, hoffset, hbefore, hends⟩
    obtain ⟨token, offset⟩ := tok
    obtain rfl : offset = pre.length := hoffset
    cases token with
    | lparen => exact .lparen (by rw [hcs]; simp [Token.chars])
    | rparen => exact .rparen (by rw [hcs]; simp [Token.chars])
    | text word =>
      have hrun : Text.AtomRun cs pre.length (pre.length + word.toList.length) :=
        atomRun_iff.2 ⟨pre, word.toList, post, hcs, rfl, rfl, by simpa using hbefore.1.1,
          hbefore.1.2, hends rfl, hbefore.2⟩
      have hslice : Text.slice cs pre.length (pre.length + word.toList.length) = word := by
        rw [hcs, Token.chars, slice_append, String.ofList_toList]
      have htok := Text.TokenAt.text hrun
      rwa [hslice] at htok

/-! ## The tokens that are found -/

theorem EndsBlock.append_of_ne_nil {cs : List Char} (h : EndsBlock cs) (hne : cs ≠ [])
    (ds : List Char) : EndsBlock (cs ++ ds) := by
  obtain ⟨c, cs, rfl⟩ := List.exists_cons_of_ne_nil hne
  exact endsBlock_cons_iff.2 (endsBlock_cons_iff.1 h)

theorem chars_ne_nil_of_before {t : Token} {rest : List Char} (ht : t.Before rest) :
    t.chars ≠ [] := by
  cases t with
  | text word => simpa [Token.chars] using ht.1.1
  | _ => exact List.cons_ne_nil _ _

theorem EndsBlock.eq_nil_or_concat {pre : List Char} (h : EndsBlock pre.reverse) :
    pre = [] ∨ ∃ ds c, pre = ds ++ [c] ∧ isAtomChar c = false := by
  induction pre using List.reverseRecOn with
  | nil => exact .inl rfl
  | append_singleton ds c _ =>
    rw [List.reverse_append, List.reverse_singleton, List.singleton_append,
      endsBlock_cons_iff] at h
    exact .inr ⟨ds, c, rfl, h⟩

/-- Behind a character that ends a text block, or at the beginning, a text may be cut. -/
theorem lexemes_append_of_endsBlock {pre : List Char} (h : EndsBlock pre.reverse) (keep : Bool)
    (offset : Nat) (cs : List Char) : lexemes keep offset (pre ++ cs) =
      lexemes true offset pre ++ lexemes keep (offset + pre.length) cs := by
  rcases h.eq_nil_or_concat with rfl | ⟨ds, c, rfl, hc⟩
  · simp
  · rw [← List.append_cons, lexemes_append hc, lexemes_append hc, List.append_assoc,
      List.length_append, ← Nat.add_assoc]
    congr 1
    rcases isAtomChar_eq_false_iff.1 hc with rfl | rfl | rfl <;> simp

/-- A token that is found can be cut out of the text. -/
theorem cut_of_mem_lexemes {keep : Bool} {offset : Nat} {cs : List Char} {tok : Located}
    (h : tok ∈ lexemes keep offset cs) : ∃ pre post, cs = pre ++ (tok.token.chars ++ post) ∧
      tok.offset = offset + pre.length ∧ tok.token.Before post ∧
      (tok.token.isText = true → EndsBlock pre.reverse) := by
  induction cs using lexInduction generalizing offset with
  | nil => simp at h
  | space cs ih =>
    rw [lexemes_space] at h
    obtain ⟨pre, post, rfl, hoffset, hbefore, hends⟩ := ih h
    refine ⟨' ' :: pre, post, rfl, ?_, hbefore, ?_⟩
    · rw [hoffset, List.length_cons]
      omega
    · intro htext
      rw [List.reverse_cons]
      exact (hends htext).append (endsBlock_cons_iff.2 rfl)
  | token t rest ht ih =>
    rw [lexemes_token ht] at h
    split at h
    · cases h
    · rcases List.mem_cons.1 h with rfl | h
      · exact ⟨[], rest, rfl, rfl, ht, fun _ => endsBlock_nil⟩
      · obtain ⟨pre, post, rfl, hoffset, hbefore, hends⟩ := ih h
        refine ⟨t.chars ++ pre, post, by rw [List.append_assoc], ?_, hbefore, ?_⟩
        · rw [hoffset, List.length_append, Nat.add_assoc]
        · intro htext
          rw [List.reverse_append]
          by_cases hpre : pre = []
          · -- a text block right behind another one would belong to it
            subst hpre
            cases t with
            | text word =>
              have := hbefore.isText_eq_false ht.2
              rw [htext] at this
              cases this
            | _ => exact endsBlock_cons_iff.2 rfl
          · exact (hends htext).append_of_ne_nil (by simpa using hpre) _

/-- Every token begins in the text. -/
theorem offset_of_mem_lexemes {keep : Bool} {offset : Nat} {cs : List Char} {tok : Located}
    (h : tok ∈ lexemes keep offset cs) :
    offset ≤ tok.offset ∧ tok.offset < offset + cs.length := by
  obtain ⟨pre, post, hcs, hoffset, hbefore, -⟩ := cut_of_mem_lexemes h
  have hpos := List.length_pos_iff.2 (chars_ne_nil_of_before hbefore)
  rw [hcs, List.length_append, List.length_append]
  omega

theorem tokenAt_of_mem_lexemes {keep : Bool} {cs : List Char} {tok : Located}
    (h : tok ∈ lexemes keep 0 cs) : Text.TokenAt cs tok := by
  obtain ⟨pre, post, hcs, hoffset, hbefore, hends⟩ := cut_of_mem_lexemes h
  exact tokenAt_iff.2 ⟨pre, post, hcs, hoffset.trans (Nat.zero_add _), hbefore, hends⟩

/-- A token that can be cut out of the text is found. -/
theorem mem_lexemes_of_cut {pre post : List Char} {t : Token} (ht : t.Before post)
    (hends : t.isText = true → EndsBlock pre.reverse) (offset : Nat) :
    ⟨t, offset + pre.length⟩ ∈ lexemes true offset (pre ++ (t.chars ++ post)) := by
  cases t with
  | lparen =>
    rw [Token.chars, List.singleton_append, lexemes_append rfl, lexemes_lparen]
    simp
  | rparen =>
    rw [Token.chars, List.singleton_append, lexemes_append rfl, lexemes_rparen]
    simp
  | text word =>
    rw [lexemes_append_of_endsBlock (hends rfl), lexemes_true_token ht]
    simp

theorem mem_lexemes_iff {cs : List Char} {tok : Located} :
    tok ∈ lexemes true 0 cs ↔ Text.TokenAt cs tok := by
  constructor
  · exact tokenAt_of_mem_lexemes
  · intro h
    obtain ⟨pre, post, hcs, hoffset, hbefore, hends⟩ := tokenAt_iff.1 h
    have := mem_lexemes_of_cut hbefore hends 0
    rwa [← hcs, Nat.zero_add, ← hoffset] at this

/-- The tokens are found in the order of their offsets. -/
theorem pairwise_offset_lexemes (keep : Bool) (offset : Nat) (cs : List Char) :
    (lexemes keep offset cs).Pairwise fun a b => a.offset < b.offset := by
  induction cs using lexInduction generalizing offset with
  | nil => simp
  | space cs ih =>
    rw [lexemes_space]
    exact ih _
  | token t rest ht ih =>
    rw [lexemes_token ht]
    split
    · exact List.Pairwise.nil
    · refine List.pairwise_cons.2 ⟨?_, ih _⟩
      intro tok htok
      have hpos := List.length_pos_iff.2 (chars_ne_nil_of_before ht)
      exact Nat.lt_of_lt_of_le (Nat.lt_add_of_pos_right hpos) (offset_of_mem_lexemes htok).1

/-! ## Trailing text -/

/-- The text in front of the characters that may be a block in the making. -/
theorem exists_trailing (cs : List Char) : ∃ pre word, cs = pre ++ word ∧
    EndsBlock pre.reverse ∧ ∀ c ∈ word, isAtomChar c = true := by
  refine ⟨(cs.reverse.dropWhile isAtomChar).reverse, (cs.reverse.takeWhile isAtomChar).reverse,
    ?_, ?_, ?_⟩
  · rw [← List.reverse_append, List.takeWhile_append_dropWhile, List.reverse_reverse]
  · intro c hc
    have := List.head?_dropWhile_not isAtomChar cs.reverse
    rw [List.reverse_reverse, Option.mem_def] at hc
    rw [hc] at this
    exact this
  · intro c hc
    exact List.mem_takeWhile_imp (List.mem_reverse.1 hc)

theorem lexemes_of_word {word : List Char} (hne : word ≠ [])
    (hword : ∀ c ∈ word, isAtomChar c = true) (keep : Bool) (offset : Nat) :
    lexemes keep offset word = if keep then [⟨.text (String.ofList word), offset⟩] else [] := by
  have ht : (Token.text (String.ofList word)).Before [] :=
    ⟨⟨by simpa using hne, by simpa using hword⟩, endsBlock_nil⟩
  have h := lexemes_token ht keep offset
  rw [Token.chars, String.toList_ofList, List.append_nil, lexemes_nil] at h
  rw [h]
  cases keep <;> rfl

namespace Scanner

theorem pending_step (s : Scanner) (c : Char) :
    (s.step c).pending = if isAtomChar c then s.pending ++ [c] else [] := by
  obtain ⟨offset, block?, found⟩ := s
  by_cases hc : isAtomChar c = true
  · rw [if_pos hc]
    simp only [isAtomChar, Bool.and_eq_true, bne_iff_ne] at hc
    cases block? <;> simp [step, accept, hc, extend, pending]
  · rw [if_neg hc]
    rcases isAtomChar_eq_false_iff.1 (Bool.eq_false_iff.2 hc) with rfl | rfl | rfl <;>
      cases block? <;> rfl

theorem pending_foldl_word {word : List Char} (hword : ∀ c ∈ word, isAtomChar c = true)
    (s : Scanner) : (word.foldl step s).pending = s.pending ++ word := by
  induction word generalizing s with
  | nil => simp
  | cons c word ih =>
    rw [List.foldl_cons, ih fun c hc => hword c (List.mem_cons_of_mem _ hc), pending_step,
      if_pos (hword c List.mem_cons_self), List.append_assoc, List.singleton_append]

/-- What is pending at the end is the run of atom characters that lasts to it. -/
theorem pending_foldl_append {pre word : List Char} (hpre : EndsBlock pre.reverse)
    (hword : ∀ c ∈ word, isAtomChar c = true) :
    ((pre ++ word).foldl step {}).pending = word := by
  rw [List.foldl_append, pending_foldl_word hword]
  rcases hpre.eq_nil_or_concat with rfl | ⟨ds, c, rfl, hc⟩
  · rfl
  · rw [List.foldl_append, List.foldl_cons, List.foldl_nil, pending_step, hc]
    rfl

/-- A block is reported as unterminated iff it is pending at the end and is to be dropped. -/
theorem unterminated_finish (s : Scanner) (keep : Bool) :
    (s.finish keep).events.toList.filterMap Event.unterminated? =
      if keep then [] else (s.block?.map fun block => (block.text, block.start)).toList := by
  obtain ⟨offset, block?, found⟩ := s
  cases keep <;> cases block? <;> rfl

end Scanner

/-- The trailing run of a text is what the scanner drops and reports. -/
theorem unterminated_scan {src : String} {pre word : List Char} (hsrc : src.toList = pre ++ word)
    (hpre : EndsBlock pre.reverse) (hword : ∀ c ∈ word, isAtomChar c = true) :
    (scan false src).events.toList.filterMap Event.unterminated? =
      if word = [] then [] else [(String.ofList word, pre.length)] := by
  have hpending := Scanner.pending_foldl_append hpre hword
  have hsound := (Scanner.sound_init.foldl true (pre ++ word)).1
  have hoffset := Scanner.offset_foldl {} (pre ++ word)
  rw [scan, Scanner.unterminated_finish, if_neg (by simp), hsrc]
  generalize (pre ++ word).foldl Scanner.step {} = s at hpending hsound hoffset
  obtain ⟨offset, block?, found⟩ := s
  cases block? with
  | none =>
    obtain rfl : [] = word := hpending
    rfl
  | some block =>
    obtain ⟨⟨hne, -⟩, hstart⟩ := hsound.block block rfl
    obtain rfl : block.text.toList = word := hpending
    rw [if_neg (by simpa using hne), String.ofList_toList]
    simp only [List.length_append, String.length_toList] at hoffset hstart
    have : block.start = pre.length := by omega
    rw [← this]
    rfl

/-- Where a run lasts to the end of the text, it is the trailing one. -/
theorem atomRun_length_iff {cs : List Char} {i : Nat} :
    Text.AtomRun cs i cs.length ↔ ∃ pre word, cs = pre ++ word ∧ i = pre.length ∧ word ≠ [] ∧
      EndsBlock pre.reverse ∧ ∀ c ∈ word, isAtomChar c = true := by
  rw [atomRun_iff]
  constructor
  · intro ⟨pre, word, post, hcs, hi, hj, hne, hword, hpre, _⟩
    have hpost : post = [] := by
      have hlen := congrArg List.length hcs
      simp only [List.length_append] at hlen
      exact List.length_eq_zero_iff.1 (by omega)
    rw [hpost, List.append_nil] at hcs
    exact ⟨pre, word, hcs, hi, hne, hpre, hword⟩
  · intro ⟨pre, word, hcs, hi, hne, hpre, hword⟩
    refine ⟨pre, word, [], by rw [List.append_nil, hcs], hi, ?_, hne, hword, hpre, endsBlock_nil⟩
    rw [hcs, hi, List.length_append]

/-- The scanner finds the tokens that stand in the text, in the order of their offsets, and nothing
else. If it is to drop trailing text, it leaves out the run that lasts to the end of the text and
reports it; without such a run nothing is left out or reported. -/
theorem scan_exact (src : String) :
    ((scan true src).value.toList.Pairwise fun a b => a.offset < b.offset) ∧
      (∀ tok, tok ∈ (scan true src).value.toList ↔ Text.TokenAt src.toList tok) ∧
      (∀ i, Text.AtomRun src.toList i src.toList.length →
        (scan true src).value.toList = (scan false src).value.toList ++
            [⟨.text (Text.slice src.toList i src.toList.length), i⟩] ∧
          (scan false src).events.toList.filterMap Event.unterminated? =
            [(Text.slice src.toList i src.toList.length, i)]) ∧
      ((∀ i, ¬ Text.AtomRun src.toList i src.toList.length) →
        (scan true src).value.toList = (scan false src).value.toList ∧
          (scan false src).events.toList.filterMap Event.unterminated? = []) ∧
      (scan true src).events.toList.filterMap Event.unterminated? = [] := by
  rw [toList_scan, toList_scan]
  refine ⟨pairwise_offset_lexemes true 0 _, fun tok => mem_lexemes_iff, ?_, ?_, ?_⟩
  · intro i hrun
    obtain ⟨pre, word, hcs, rfl, hne, hpre, hword⟩ := atomRun_length_iff.1 hrun
    have hslice : Text.slice src.toList pre.length src.toList.length = String.ofList word := by
      have := slice_append pre word []
      rwa [List.append_nil, ← List.length_append, ← hcs] at this
    refine ⟨?_, ?_⟩
    · rw [hslice, hcs, lexemes_append_of_endsBlock hpre, lexemes_append_of_endsBlock hpre,
        lexemes_of_word hne hword, lexemes_of_word hne hword]
      simp
    · rw [unterminated_scan hcs hpre hword, if_neg hne, hslice]
  · intro hnone
    obtain ⟨pre, word, hcs, hpre, hword⟩ := exists_trailing src.toList
    obtain rfl : word = [] := by
      apply Classical.byContradiction
      intro hne
      exact hnone _ (atomRun_length_iff.2 ⟨pre, word, hcs, rfl, hne, hpre, hword⟩)
    refine ⟨?_, ?_⟩
    · rw [hcs, lexemes_append_of_endsBlock hpre, lexemes_append_of_endsBlock hpre, lexemes_nil,
        lexemes_nil]
    · rw [unterminated_scan hcs hpre hword, if_pos rfl]
  · rw [scan, Scanner.unterminated_finish, if_pos rfl]

end Sexp
