import Sexp.Expr.Compare
import Sexp.Expr.Encoding
import Sexp.Proofs.Rows
import Mathlib.Algebra.Group.Nat.Defs

/-!
# Unique decoding

Whatever follows an encoding, the expression and what follows can be told from the bytes: no two
expressions have the same encoding, and none has an encoding with which another's begins. The kind
of a node is in its first byte; a text ends where the byte `ff` first occurs; the number of items is
all that tells where a list ends, so it must not exceed what eight bytes can hold (`ItemsBelow`).

* `Text.toUTF8_append_inj`: a text and what follows it.
* `lengthBytes_inj`: a number of items.
* `bytesAll_append_inj`, `bytes_append_inj`: a row of as many expressions, and a single one.
* `encoding_append_inj`: the encoding that the work list writes.
-/

namespace Sexp

/-! ## Texts -/

namespace Text

theorem lt_of_mem_utf8EncodeChar {c : Char} {b : UInt8} (h : b ∈ String.utf8EncodeChar c) :
    ∃ n < 0xf8, b = UInt8.ofNat n := by
  unfold String.utf8EncodeChar at h
  simp only [] at h
  repeat' split at h
  all_goals
    simp only [List.mem_cons, List.not_mem_nil, or_false] at h
  · exact ⟨_, by omega, h⟩
  · rcases h with h | h <;> exact ⟨_, by omega, h⟩
  · rcases h with h | h | h <;> exact ⟨_, by omega, h⟩
  · rcases h with h | h | h | h <;> exact ⟨_, by omega, h⟩

/-- The byte `ff` does not occur in UTF-8. -/
theorem ff_notMem_toUTF8 (text : String) : 0xff ∉ text.toUTF8.data.toList := by
  rw [← String.ofList_toList (s := text), String.toUTF8_eq_toByteArray,
    String.toByteArray_ofList, List.utf8Encode, List.data_toByteArray, List.toList_toArray,
    List.mem_flatMap]
  rintro ⟨c, -, hc⟩
  obtain ⟨n, hn, heq⟩ := lt_of_mem_utf8EncodeChar hc
  have := congrArg UInt8.toNat heq
  rw [UInt8.toNat_ofNat', Nat.mod_eq_of_lt (by omega), show (0xff : UInt8).toNat = 255 by rfl]
    at this
  omega

/-- Two texts in UTF-8 with the byte `ff` behind them. -/
theorem toUTF8_append_inj {s t : String} {x y : List UInt8}
    (h : s.toUTF8.data.toList ++ 0xff :: x = t.toUTF8.data.toList ++ 0xff :: y) :
    s = t ∧ x = y := by
  obtain ⟨hdata, hrest⟩ := append_cons_inj (ff_notMem_toUTF8 s) (ff_notMem_toUTF8 t) h
  exact ⟨String.toByteArray_inj.1 (ByteArray.ext (Array.toList_inj.1 hdata)), hrest⟩

end Text

namespace Expr

/-! ## Numbers of items -/

theorem length_lengthBytes (n : Nat) : (lengthBytes n).length = 8 := by
  simp [lengthBytes]

/-- The lowest bytes of a number determine it, if there are enough of them. -/
theorem eq_of_bytes_eq {k m n : Nat} (hm : m < 256 ^ k) (hn : n < 256 ^ k)
    (h : ∀ i < k, UInt8.ofNat (m >>> (8 * i)) = UInt8.ofNat (n >>> (8 * i))) : m = n := by
  induction k generalizing m n with
  | zero => omega
  | succ k ih =>
    have hdiv : ∀ {l : Nat}, l < 256 ^ (k + 1) → l / 256 < 256 ^ k := fun hl =>
      Nat.div_lt_of_lt_mul (by rwa [← Nat.pow_succ'])
    have hlow := congrArg UInt8.toNat (h 0 (by omega))
    simp only [Nat.mul_zero, Nat.shiftRight_zero, UInt8.toNat_ofNat'] at hlow
    have hhigh : m / 256 = n / 256 := by
      refine ih (hdiv hm) (hdiv hn) fun i hi => ?_
      have := h (i + 1) (by omega)
      rwa [Nat.mul_add, Nat.add_comm (8 * i), Nat.shiftRight_add, Nat.shiftRight_add,
        Nat.shiftRight_eq_div_pow m, Nat.shiftRight_eq_div_pow n] at this
    omega

theorem lengthBytes_inj {m n : Nat} (hm : m < 2 ^ 64) (hn : n < 2 ^ 64)
    (h : lengthBytes m = lengthBytes n) : m = n := by
  refine eq_of_bytes_eq (k := 8) hm hn fun i hi => ?_
  exact List.map_inj_left.1 h i (List.mem_range.2 hi)

/-! ## Expressions -/

/-- Every list in the expression has fewer than `bound` items. -/
inductive ItemsBelow (bound : Nat) : Expr → Prop
  | atom (text : String) : ItemsBelow bound (.atom text)
  | list {items : List Expr} (hlength : items.length < bound)
      (hitems : ∀ e ∈ items, ItemsBelow bound e) : ItemsBelow bound (.list items)

/-- Rows of as many expressions, if their items can be told from what follows. -/
theorem bytesAll_append_inj {as bs : List Expr} {x y : List UInt8}
    (hlength : as.length = bs.length)
    (hitems : ∀ a ∈ as, ∀ b ∈ bs, ∀ x y, a.bytes ++ x = b.bytes ++ y → a = b ∧ x = y)
    (h : bytesAll as ++ x = bytesAll bs ++ y) : as = bs ∧ x = y := by
  induction as generalizing bs with
  | nil =>
    obtain rfl : bs = [] := List.length_eq_zero_iff.1 hlength.symm
    exact ⟨rfl, h⟩
  | cons a as ih =>
    obtain ⟨b, bs, rfl⟩ := List.exists_cons_of_length_eq_add_one hlength.symm
    rw [bytesAll, bytesAll, List.append_assoc, List.append_assoc] at h
    obtain ⟨rfl, hrest⟩ := hitems a List.mem_cons_self b List.mem_cons_self _ _ h
    obtain ⟨rfl, hxy⟩ := ih (Nat.succ.inj hlength)
      (fun a ha b hb => hitems a (List.mem_cons_of_mem _ ha) b (List.mem_cons_of_mem _ hb)) hrest
    exact ⟨rfl, hxy⟩

theorem bytes_append_inj {a b : Expr} (ha : a.ItemsBelow (2 ^ 64)) (hb : b.ItemsBelow (2 ^ 64))
    {x y : List UInt8} (h : a.bytes ++ x = b.bytes ++ y) : a = b ∧ x = y := by
  induction a using recOnItems generalizing b x y with
  | atom s =>
    cases hb with
    | atom t =>
      simp only [bytes, List.cons_append, List.append_assoc, List.nil_append,
        List.cons.injEq, true_and] at h
      obtain ⟨rfl, hxy⟩ := Text.toUTF8_append_inj h
      exact ⟨rfl, hxy⟩
    | list => simp [bytes] at h
  | list as ih =>
    cases ha with | list hlas has =>
    cases hb with
    | atom t => simp [bytes] at h
    | @list bs hlbs hbs =>
      simp only [bytes, List.cons_append, List.append_assoc, List.cons.injEq, true_and] at h
      obtain ⟨hlength, hrest⟩ := List.append_inj h (by rw [length_lengthBytes, length_lengthBytes])
      obtain ⟨rfl, hxy⟩ := bytesAll_append_inj (lengthBytes_inj hlas hlbs hlength)
        (fun a ha b hb x y => ih a ha (has a ha) (hbs b hb)) hrest
      exact ⟨rfl, hxy⟩

/-- Encodings can be told from whatever follows them, and equal expressions have the same. -/
theorem encoding_append_inj {a b : Expr} (ha : a.ItemsBelow (2 ^ 64))
    (hb : b.ItemsBelow (2 ^ 64)) :
    (∀ x y : ByteArray, a.encoding ++ x = b.encoding ++ y → a.same b = true ∧ x = y) ∧
      (a.same b = true → a.encoding = b.encoding) := by
  refine ⟨fun x y h => ?_, fun h => ?_⟩
  · have hdata := congrArg (fun bytes : ByteArray => bytes.data.toList) h
    simp only [ByteArray.data_append, Array.toList_append, data_encoding] at hdata
    obtain ⟨hab, hxy⟩ := bytes_append_inj ha hb hdata
    exact ⟨same_eq_true_iff.2 hab, ByteArray.ext (Array.toList_inj.1 hxy)⟩
  · rw [same_eq_true_iff.1 h]

/-- A list and the same list with an empty atom more: neither encoding begins the other. -/
theorem encoding_append_inj_longer :
    (Expr.list [.atom "a"]).ItemsBelow (2 ^ 64) ∧
      (Expr.list [.atom "a", .atom ""]).ItemsBelow (2 ^ 64) ∧
      ∀ x y : ByteArray, (Expr.list [.atom "a"]).encoding ++ x ≠
        (Expr.list [.atom "a", .atom ""]).encoding ++ y := by
  have hshort : (Expr.list [.atom "a"]).ItemsBelow (2 ^ 64) :=
    .list (by decide) (by simpa using .atom "a")
  have hlong : (Expr.list [.atom "a", .atom ""]).ItemsBelow (2 ^ 64) :=
    .list (by decide) (by simpa using ⟨.atom "a", .atom ""⟩)
  refine ⟨hshort, hlong, fun x y h => ?_⟩
  have := ((encoding_append_inj hshort hlong).1 x y h).1
  rw [same_eq_true_iff] at this
  simp at this

end Expr

end Sexp
