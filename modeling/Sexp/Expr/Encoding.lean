import Sexp.Expr.Basic

/-!
# The byte encoding of an expression

An expression is encoded node by node, each before its items. An atom is the byte `00`, its text in
UTF-8 and the byte `ff`, which occurs nowhere in UTF-8; a list is the byte `01`, the number of its
items as eight bytes with the lowest first, and then the items. The encoding is what hash functions
of expressions are fed.

* `data_encodePending`, `data_encoding`: the work list writes the recursively defined encoding.
-/

namespace Sexp.Expr

/-- The lowest eight bytes of a number, lowest first. -/
def lengthBytes (n : Nat) : List UInt8 :=
  (List.range 8).map fun i => UInt8.ofNat (n >>> (8 * i))

/-- Appends bytes one by one. -/
def pushBytes (out : ByteArray) (bytes : List UInt8) : ByteArray :=
  bytes.foldl ByteArray.push out

/-- Encodes the pending expressions, first to last, after the bytes in `out`. -/
def encodePending (pending : List Expr) (out : ByteArray) : ByteArray :=
  match pending with
  | [] => out
  | .atom text :: rest => encodePending rest ((out.push 0x00 ++ text.toUTF8).push 0xff)
  | .list items :: rest =>
    encodePending (items ++ rest) (pushBytes (out.push 0x01) (lengthBytes items.length))
termination_by totalSize sizeOf pending
decreasing_by
  · simp only [totalSize_cons, atom.sizeOf_spec]
    omega
  · have h := totalSize_lt items
    simp only [totalSize_append, totalSize_cons, list.sizeOf_spec]
    omega

/-- The encoding of an expression. -/
def encoding (e : Expr) : ByteArray :=
  encodePending [e] ByteArray.empty

/-! ## The recursive description -/

mutual
/-- The bytes of an expression by recursion. -/
def bytes : Expr → List UInt8
  | atom text => 0x00 :: (text.toUTF8.data.toList ++ [0xff])
  | list items => 0x01 :: (lengthBytes items.length ++ bytesAll items)

def bytesAll : List Expr → List UInt8
  | [] => []
  | e :: es => e.bytes ++ bytesAll es
end

theorem bytesAll_append (as bs : List Expr) : bytesAll (as ++ bs) = bytesAll as ++ bytesAll bs := by
  induction as with
  | nil => simp [bytesAll]
  | cons a as ih => simp [bytesAll, ih]

theorem data_pushBytes (out : ByteArray) (bs : List UInt8) :
    (pushBytes out bs).data.toList = out.data.toList ++ bs := by
  induction bs generalizing out with
  | nil => simp [pushBytes]
  | cons b bs ih => simpa [pushBytes, ByteArray.data_push] using ih (out.push b)

theorem data_encodePending (pending : List Expr) (out : ByteArray) :
    (encodePending pending out).data.toList = out.data.toList ++ bytesAll pending := by
  fun_induction encodePending pending out with
  | case1 => simp [bytesAll]
  | case2 out text rest ih => rw [ih]; simp [bytesAll, bytes]
  | case3 out items rest ih => rw [ih]; simp [ bytesAll, bytes, bytesAll_append, data_pushBytes]

theorem data_encoding (e : Expr) : e.encoding.data.toList = e.bytes := by
  simp [encoding, data_encodePending, bytesAll]

end Sexp.Expr
