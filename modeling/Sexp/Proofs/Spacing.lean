import Sexp.Proofs.Offsets
import Sexp.Proofs.TokenPositions

/-!
# Spaces beside delimiters

A space ends a text block and is nothing by itself. Where no text block can go on, any number of
spaces may therefore be inserted without a change to what is read; only the offsets of errors behind
the place move along.

* `Seam`: the places where no text block goes on.
* `Seam.lexemes_append`: at such a place, a text may be cut.
* `Seam.lexemes_spaces`: the tokens of a text into which spaces have been inserted.
* `read_insert_spaces`: every reader makes the same of both texts, up to the offset of an error.
-/

namespace Sexp

open Sexp.Expr (isAtomChar)

/-- `Seam keep as bs`: no text block goes on from `as` to `bs`, where `keep` tells whether a block
that lasts to the end of the text is kept. -/
inductive Seam (keep : Bool) : List Char → List Char → Prop
  /-- Nothing stands in front. -/
  | atStart (bs : List Char) : Seam keep [] bs
  /-- A delimiter stands in front. -/
  | behind (as : List Char) {c : Char} (bs : List Char) :
      isAtomChar c = false → Seam keep (as ++ [c]) bs
  /-- A delimiter stands behind. -/
  | before (as : List Char) {c : Char} (bs : List Char) :
      isAtomChar c = false → Seam keep as (c :: bs)
  /-- Nothing stands behind, which ends a block just as well if it is kept. -/
  | atEnd (as : List Char) : keep = true → Seam keep as []

/-- Where a place is found after `n` characters have been inserted at `cut`. -/
def shiftFrom (cut n offset : Nat) : Nat :=
  if offset < cut then offset else offset + n

/-! ## Seams -/

namespace Seam

variable {keep : Bool} {as bs : List Char}

/-- A text may be cut at a seam. -/
theorem lexemes_append (h : Seam keep as bs) (offset : Nat) :
    lexemes keep offset (as ++ bs) =
      lexemes true offset as ++ lexemes keep (offset + as.length) bs := by
  cases h with
  | atStart bs => simp
  | behind as bs hc =>
    apply lexemes_append_of_endsBlock
    rw [List.reverse_append, List.reverse_singleton, List.singleton_append]
    exact endsBlock_cons_iff.2 hc
  | before as bs hc => exact Sexp.lexemes_append hc keep as bs offset
  | atEnd as hkeep =>
    subst hkeep
    simp

/-- A seam stays one when spaces are inserted. -/
theorem spaces (h : Seam keep as bs) (n : Nat) : Seam keep as (List.replicate n ' ' ++ bs) := by
  cases n with
  | zero => exact h
  | succ n =>
    show Seam keep as (' ' :: (List.replicate n ' ' ++ bs))
    exact .before as _ (by decide)

end Seam

/-! ## Tokens behind inserted spaces -/

section

variable {ts : List Located} {cut : Nat}

theorem map_shiftFrom_of_lt (h : ∀ tok ∈ ts, tok.offset < cut) (n : Nat) :
    ts.map (Located.mapOffset (shiftFrom cut n)) = ts := by
  have hid : ∀ tok ∈ ts, Located.mapOffset (shiftFrom cut n) tok = id tok := by
    intro tok htok
    rw [Located.mapOffset, shiftFrom, if_pos (h tok htok)]
    rfl
  rw [List.map_congr_left hid, List.map_id]

theorem map_shiftFrom_of_le (h : ∀ tok ∈ ts, cut ≤ tok.offset) (n : Nat) :
    ts.map (Located.mapOffset (shiftFrom cut n)) = ts.map (Located.mapOffset (· + n)) := by
  apply List.map_congr_left
  intro tok htok
  rw [Located.mapOffset, shiftFrom, if_neg (Nat.not_lt.2 (h tok htok)), Located.mapOffset]

end

/-- Spaces at a seam move the tokens behind them and change nothing else. -/
theorem Seam.lexemes_spaces {keep : Bool} {as bs : List Char} (h : Seam keep as bs) (n : Nat) :
    lexemes keep 0 (as ++ (List.replicate n ' ' ++ bs)) =
      (lexemes keep 0 (as ++ bs)).map (Located.mapOffset (shiftFrom as.length n)) := by
  have hfront : (lexemes true 0 as).map (Located.mapOffset (shiftFrom as.length n)) =
      lexemes true 0 as := by
    apply map_shiftFrom_of_lt
    intro tok htok
    have := (offset_of_mem_lexemes htok).2
    rwa [Nat.zero_add] at this
  have hback : (lexemes keep as.length bs).map (Located.mapOffset (shiftFrom as.length n)) =
      lexemes keep (as.length + n) bs := by
    rw [lexemes_add]
    exact map_shiftFrom_of_le (fun tok htok => (offset_of_mem_lexemes htok).1) n
  rw [(h.spaces n).lexemes_append, h.lexemes_append, lexemes_replicate_space, List.map_append,
    Nat.zero_add, hfront, hback]

/-! ## What is read -/

/-- Where no text block goes on, inserted spaces change nothing about what a reader makes of a text
but the offset of an error behind them. -/
theorem read_insert_spaces (r : Reader) (a b : String) (n : Nat)
    (h : Seam r.keepTrailing a.toList b.toList) :
    (r.read (a ++ String.ofList (List.replicate n ' ') ++ b)).value =
      (r.read (a ++ b)).value.mapError (ReadError.mapOffset (shiftFrom a.length n)) := by
  have htext : (a ++ String.ofList (List.replicate n ' ') ++ b).toList =
      a.toList ++ (List.replicate n ' ' ++ b.toList) := by
    rw [String.toList_append, String.toList_append, String.toList_ofList, List.append_assoc]
  rw [r.read_value, r.read_value, htext, String.toList_append, h.lexemes_spaces,
    r.parse_mapOffset, String.length_toList]

/-- Two spaces in front of a list that is one too deep. -/
theorem read_insert_spaces_tooDeep :
    Seam true "(é ".toList "(x))".toList ∧
      ((Reader.strict.withMaxDepth 1).read
        ("(é " ++ String.ofList (List.replicate 2 ' ') ++ "(x))")).value = .error (.tooDeep 5 1) := by
  have hseam : Seam true "(é ".toList "(x))".toList := .before _ _ (by decide)
  have hread : ((Reader.strict.withMaxDepth 1).read ("(é " ++ "(x))")).value =
      .error (.tooDeep 3 1) := by cbv
  refine ⟨hseam, ?_⟩
  rw [read_insert_spaces (Reader.strict.withMaxDepth 1) "(é " "(x))" 2 hseam, hread]
  rfl

/-- A space inside a text block is another matter. -/
example : ((Reader.strict.read "ab").value, (Reader.strict.read "a b").value) =
    (.ok (.atom "ab"), .error (.multipleTopLevel 2)) := by cbv

end Sexp
