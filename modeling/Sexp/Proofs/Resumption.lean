import Sexp.Proofs.Offsets
import Sexp.Proofs.TrailingText

/-!
# Scanning a text in two parts

Of a text that goes on, only the text block in the making can still change. What has been found
stays, and the scan of the whole text goes on like one that begins anew with this block.

* `trailingCut_of_endsBlock`: a text is cut in front of the block that it ends with.
* `lexemes_append_trailing`: the tokens of a text whose trailing block goes on.
* `scan_resumes`: the same for the scanner, whether trailing text is kept or dropped.
-/

namespace Sexp

open Sexp.Expr (isAtomChar)

/-- The text is `front` and `tail`, where `tail` is the longest ending that can stand in a text
block. -/
structure Text.TrailingCut (text front tail : String) : Prop where
  cut : text = front ++ tail
  inside : ∀ c ∈ tail.toList, isAtomChar c = true
  longest : ∀ front' tail', text = front' ++ tail' →
    (∀ c ∈ tail'.toList, isAtomChar c = true) → tail'.length ≤ tail.length

/-! ## The cut -/

theorem rtakeWhile_trailing {pre word : List Char} (hpre : EndsBlock pre.reverse)
    (hword : ∀ c ∈ word, isAtomChar c = true) : (pre ++ word).rtakeWhile isAtomChar = word := by
  have hrev : ∀ c ∈ word.reverse, isAtomChar c = true := fun c hc =>
    hword c (List.mem_reverse.1 hc)
  rw [List.rtakeWhile, List.reverse_append, (takeWhile_append_of_endsBlock hrev hpre).1,
    List.reverse_reverse]

/-- No ending that can stand in a text block is longer than the longest. -/
theorem length_le_rtakeWhile (pre : List Char) {word : List Char}
    (hword : ∀ c ∈ word, isAtomChar c = true) :
    word.length ≤ ((pre ++ word).rtakeWhile isAtomChar).length := by
  have hrev : ∀ c ∈ word.reverse, isAtomChar c = true := fun c hc =>
    hword c (List.mem_reverse.1 hc)
  rw [List.rtakeWhile, List.reverse_append, List.takeWhile_append_of_pos hrev, List.length_reverse,
    List.length_append, List.length_reverse]
  exact Nat.le_add_right _ _

theorem trailingCut_of_endsBlock {text : String} {pre word : List Char}
    (htext : text.toList = pre ++ word) (hpre : EndsBlock pre.reverse)
    (hword : ∀ c ∈ word, isAtomChar c = true) :
    Text.TrailingCut text (String.ofList pre) (String.ofList word) := by
  refine ⟨?_, by rwa [String.toList_ofList], ?_⟩
  · rw [← String.toList_inj, String.toList_append, String.toList_ofList, String.toList_ofList, htext]
  · intro front' tail' hcut htail
    have hlength := length_le_rtakeWhile front'.toList htail
    rw [← String.toList_append, ← hcut, htext, rtakeWhile_trailing hpre hword] at hlength
    rwa [← String.length_toList, String.length_ofList]

/-! ## Tokens -/

/-- Where a trailing block goes on, the tokens in front of it stay, and the others are those of a
text that begins with it. -/
theorem lexemes_append_trailing {pre word : List Char} (hpre : EndsBlock pre.reverse)
    (hword : ∀ c ∈ word, isAtomChar c = true) (keep : Bool) (offset : Nat) (cs : List Char) :
    lexemes keep offset (pre ++ word ++ cs) =
      lexemes false offset (pre ++ word) ++
        (lexemes keep offset (word ++ cs)).map (Located.mapOffset (· + pre.length)) := by
  rw [lexemes_false_trailing hpre hword, List.append_assoc, lexemes_append_of_endsBlock hpre,
    lexemes_add]

/-- A scan can be interrupted after any text `p`. What has been found by then is kept for good, and
the scan goes on, with a text `q`, as if it began with the trailing block of `p`. -/
theorem scan_resumes (p : String) :
    ∃ front tail, Text.TrailingCut p front tail ∧ ∀ (keep : Bool) (q : String),
      (scan keep (p ++ q)).value.toList =
          (scan false p).value.toList ++
            (scan keep (tail ++ q)).value.toList.map (Located.mapOffset (· + front.length)) ∧
        (scan false p).value.toList <+: (scan keep (p ++ q)).value.toList := by
  obtain ⟨pre, word, htext, hpre, hword⟩ := exists_trailing p.toList
  refine ⟨_, _, trailingCut_of_endsBlock htext hpre hword, fun keep q => ?_⟩
  have hscan : (scan keep (p ++ q)).value.toList =
      (scan false p).value.toList ++
        (scan keep (String.ofList word ++ q)).value.toList.map
          (Located.mapOffset (· + (String.ofList pre).length)) := by
    simp only [toList_scan, String.toList_append, String.toList_ofList, String.length_ofList, htext]
    exact lexemes_append_trailing hpre hword keep 0 q.toList
  refine ⟨hscan, ?_⟩
  rw [hscan]
  exact List.prefix_append _ _

end Sexp
