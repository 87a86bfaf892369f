import Sexp.Token.Scan
import Sexp.Proofs.Lexemes

/-!
# Runs of the scanner

Between two characters the scanner holds finished tokens and, as characters, the block that may
still grow. What is found, together with the tokens of what is pending and of the rest of the text,
stays the same from one character to the next.

* `Sound`: the invariant of the scanner.
* `Sound.step`, `Sound.foldl`: one character, and all of them.
* `toList_scan`: the scanner finds the tokens of the text.
-/

namespace Sexp

open Sexp.Expr (isAtomChar IsAtomText)

/-! ## The invariant -/

namespace Scanner

/-- What holds between two characters: the columns of the queue are in step, and the block that may
still grow is an atom text that reaches up to here. -/
structure Sound (s : Scanner) : Prop where
  found : s.found.Aligned
  block : ∀ block, s.block? = some block →
    IsAtomText block.text ∧ s.offset = block.start + block.text.length

/-- The characters that the scanner has not made a token of yet. -/
def pending (s : Scanner) : List Char :=
  match s.block? with
  | none => []
  | some block => block.text.toList

/-- The offset of the first pending character, or of the next one. -/
def start (s : Scanner) : Nat :=
  match s.block? with
  | none => s.offset
  | some block => block.start

theorem sound_init : Sound {} := ⟨Queue.aligned_empty, by simp⟩

theorem Sound.endBlock {s : Scanner} (h : s.Sound) : s.endBlock.Sound := by
  unfold Scanner.endBlock
  split
  · exact ⟨h.found.push _, by simp⟩
  · exact h

theorem block?_endBlock (s : Scanner) : s.endBlock.block? = none := by
  unfold Scanner.endBlock
  split
  · rfl
  · rename_i hs
    obtain ⟨offset, block?, found⟩ := s
    cases block? with
    | none => rfl
    | some block => exact absurd rfl (hs _ _ _)

/-- Ending the block in front of a text that ends it anyway loses nothing. -/
theorem Sound.lexemes_endBlock {s : Scanner} (h : s.Sound) {keep : Bool} {cs : List Char}
    (hcs : EndsBlock cs) (hkeep : cs = [] → keep = true) :
    s.endBlock.found.toList ++ lexemes keep s.offset cs =
      s.found.toList ++ lexemes keep s.start (s.pending ++ cs) := by
  obtain ⟨offset, block?, found⟩ := s
  cases block? with
  | none => rfl
  | some block =>
    obtain ⟨htext, hoffset⟩ := h.block block rfl
    obtain rfl : offset = block.start + block.text.length := hoffset
    have hdrop : (cs.isEmpty && !keep) = false := by
      cases cs with
      | nil => simp [hkeep rfl]
      | cons c cs => rfl
    have hblock : lexemes keep block.start (block.text.toList ++ cs) =
        ⟨.text block.text, block.start⟩ ::
          lexemes keep (block.start + block.text.length) cs := by
      have ht : (Token.text block.text).Before cs := ⟨htext, hcs⟩
      have := lexemes_token ht keep block.start
      rw [hdrop, Bool.and_false] at this
      rw [← String.length_toList]
      exact this
    simp only [Scanner.endBlock, pending, start]
    rw [hblock, h.found.toList_push]
    simp

theorem Sound.extend {s : Scanner} (h : s.Sound) {c : Char} (hc : isAtomChar c = true) :
    let r := { s.extend c with offset := s.offset + 1 }
    r.Sound ∧ r.found = s.found ∧ r.start = s.start ∧ r.pending = s.pending ++ [c] := by
  obtain ⟨offset, block?, found⟩ := s
  cases block? with
  | none =>
    refine ⟨⟨h.found, fun block hb => ?_⟩, rfl, rfl, by simp [Scanner.extend, pending]⟩
    cases hb
    exact ⟨⟨by simp, by simpa using hc⟩, by simp⟩
  | some block =>
    obtain ⟨⟨hne, hchars⟩, hoffset⟩ := h.block block rfl
    refine ⟨⟨h.found, fun block' hb => ?_⟩, rfl, rfl, by simp [Scanner.extend, pending]⟩
    cases hb
    refine ⟨⟨by simp, fun d hd => ?_⟩, ?_⟩
    · rcases List.mem_append.1 (by simpa using hd : d ∈ block.text.toList ++ [c]) with hd | hd
      · exact hchars d hd
      · rw [List.mem_singleton.1 hd]
        exact hc
    · simp only [String.length_push] at hoffset ⊢
      omega

/-- A parenthesis is found where no block is growing. -/
theorem Sound.add {s : Scanner} (h : s.Sound) (hnone : s.block? = none) (t : Token) (keep : Bool)
    (cs : List Char) :
    let r := { s.add t with offset := s.offset + 1 }
    r.Sound ∧ r.found.toList ++ lexemes keep r.start (r.pending ++ cs) =
      s.found.toList ++ ⟨t, s.offset⟩ :: lexemes keep (s.offset + 1) cs := by
  refine ⟨⟨h.found.push _, by simp [Scanner.add, hnone]⟩, ?_⟩
  simp [Scanner.add, start, pending, hnone, h.found.toList_push]

/-- One character moves from the text to what is found or pending. -/
theorem Sound.step {s : Scanner} (h : s.Sound) (keep : Bool) (c : Char) (cs : List Char) :
    (s.step c).Sound ∧ (s.step c).found.toList ++
        lexemes keep (s.step c).start ((s.step c).pending ++ cs) =
      s.found.toList ++ lexemes keep s.start (s.pending ++ c :: cs) := by
  by_cases hc : isAtomChar c = true
  · have hstep : s.step c = { s.extend c with offset := s.offset + 1 } := by
      simp only [isAtomChar, Bool.and_eq_true, bne_iff_ne] at hc
      simp [Scanner.step, accept, hc]
    obtain ⟨hsound, hfound, hstart, hpending⟩ := h.extend hc
    rw [hstep, hfound, hstart, hpending]
    exact ⟨hsound, by simp⟩
  · have hends : EndsBlock (c :: cs) := endsBlock_cons_iff.2 (Bool.eq_false_iff.2 hc)
    have hend := h.endBlock
    have hnone := block?_endBlock s
    have hoffset := offset_endBlock s
    rw [← h.lexemes_endBlock hends (by simp)]
    rcases isAtomChar_eq_false_iff.1 (Bool.eq_false_iff.2 hc) with rfl | rfl | rfl
    · have hstep : s.step ' ' = { s.endBlock with offset := s.endBlock.offset + 1 } := rfl
      rw [hstep, ← hoffset]
      refine ⟨⟨hend.found, by simp [hnone]⟩, ?_⟩
      simp [start, pending, hnone]
    · rw [lexemes_lparen, ← hoffset]
      exact hend.add hnone .lparen keep cs
    · rw [lexemes_rparen, ← hoffset]
      exact hend.add hnone .rparen keep cs

/-- A sound scanner finds the tokens of what is pending and what is still to come. -/
theorem Sound.foldl {s : Scanner} (h : s.Sound) (keep : Bool) (cs : List Char) :
    (cs.foldl Scanner.step s).Sound ∧ (cs.foldl Scanner.step s).found.toList ++
        lexemes keep (cs.foldl Scanner.step s).start (cs.foldl Scanner.step s).pending =
      s.found.toList ++ lexemes keep s.start (s.pending ++ cs) := by
  induction cs generalizing s with
  | nil => exact ⟨h, by simp⟩
  | cons c cs ih =>
    obtain ⟨hsound, hstep⟩ := h.step keep c cs
    rw [List.foldl_cons, ← hstep]
    exact ih hsound

/-- At the end the pending characters become a token or are dropped. -/
theorem Sound.finish {s : Scanner} (h : s.Sound) (keep : Bool) :
    (s.finish keep).value.toList = s.found.toList ++ lexemes keep s.start s.pending := by
  cases keep with
  | true =>
    have hend : _ = _ ++ lexemes true s.start (s.pending ++ []) :=
      h.lexemes_endBlock endsBlock_nil fun _ => rfl
    rw [List.append_nil] at hend
    rw [← hend, lexemes_nil, List.append_nil]
    rfl
  | false =>
    obtain ⟨offset, block?, found⟩ := s
    have hvalue : (Scanner.finish false ⟨offset, block?, found⟩).value = found := by
      cases block? <;> rfl
    rw [hvalue]
    cases block? with
    | none => simp [pending]
    | some block =>
      have := lexemes_false_of_isAtomText (h.block block rfl).1 block.start
      simp [pending, start, this]

end Scanner

/-- The scanner finds the tokens of the text. -/
theorem toList_scan (keep : Bool) (src : String) :
    (scan keep src).value.toList = lexemes keep 0 src.toList := by
  obtain ⟨hsound, hfold⟩ := Scanner.sound_init.foldl keep src.toList
  rw [scan, hsound.finish, hfold]
  rfl

end Sexp
