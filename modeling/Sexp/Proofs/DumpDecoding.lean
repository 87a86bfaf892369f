import Sexp.Expr.Compare
import Sexp.Expr.Print
import Sexp.Proofs.Rows
import Mathlib.Tactic.SplitIfs

/-!
# Dumps tell expressions apart

The dump of an expression determines it, whatever its atoms hold: quotes and backslashes, characters
that are written by number, or text that looks like a piece of a dump. A quote inside a quoted text
never stands alone, so the first that does is its end; behind each item a comma or a bracket tells
how the list goes on. So no dump is the beginning of another either.

* `Text.EscapedAs`, `Text.EscapedAs.append_inj`: the ways in which a character is written.
* `Text.quote_append_inj`: a quoted text and what follows it.
* `Expr.itemChars_append_inj`, `Expr.chars_append_inj`: the items of a list, and an expression.
* `Expr.dump_prefix_iff`: whole dumps.
-/

namespace Sexp

namespace Text

/-! ## Numbers in hexadecimal -/

theorem digitChar_inj {m n : Nat} (hm : m < 16) (hn : n < 16)
    (h : m.digitChar = n.digitChar) : m = n := by
  have hall : ∀ a b : Fin 16, a.val.digitChar = b.val.digitChar → a = b := by decide
  exact Fin.mk.inj_iff.1 (hall ⟨m, hm⟩ ⟨n, hn⟩ h)

theorem toDigits_concat_ne (n : Nat) (c d : Char) : [c] ≠ Nat.toDigits 16 n ++ [d] := by
  intro h
  have hlength := congrArg List.length h
  have hpos : 0 < (Nat.toDigits 16 n).length := Nat.length_toDigits_pos
  rw [List.length_append, List.length_singleton, List.length_singleton] at hlength
  omega

/-- A number can be told from its digits. -/
theorem toDigits_inj {m n : Nat} (h : Nat.toDigits 16 m = Nat.toDigits 16 n) : m = n := by
  induction m using Nat.strongRecOn generalizing n with
  | ind m ih =>
    rw [Nat.toDigits_eq_if (by decide), Nat.toDigits_eq_if (n := n) (by decide)] at h
    split_ifs at h with hm hn hn
    · exact digitChar_inj hm hn (List.cons.inj h).1
    · exact absurd h (toDigits_concat_ne _ _ _)
    · exact absurd h.symm (toDigits_concat_ne _ _ _)
    · obtain ⟨hfront, hlast⟩ := List.append_inj' h rfl
      have hdiv : m / 16 = n / 16 := ih (m / 16) (by omega) hfront
      have hmod : m % 16 = n % 16 := digitChar_inj (by omega) (by omega) (List.cons.inj hlast).1
      omega

theorem brace_notMem_toDigits (n : Nat) : '\x7d' ∉ Nat.toDigits 16 n := by
  induction n using Nat.strongRecOn with
  | ind n ih =>
    rw [Nat.toDigits_eq_if (by decide)]
    split_ifs with hn
    · simp
    · simp [ih (n / 16) (by omega)]

/-! ## Characters -/

/-- The characters that have a letter of their own behind a backslash. -/
def escapeLetters : List (Char × Char) :=
  [('"', '"'), ('\\', '\\'), ('\n', 'n'), ('\r', 'r'), ('\t', 't'), ('\x00', '0')]

/-- The ways in which a character can be written between quotes: as itself, but for the quote and
the backslash, by its letter behind a backslash, or by its number. -/
inductive EscapedAs (c : Char) : List Char → Prop
  | itself (hquote : c ≠ '"') (hbackslash : c ≠ '\\') : EscapedAs c [c]
  | letter {l : Char} (h : (c, l) ∈ escapeLetters) : EscapedAs c ['\\', l]
  | number : EscapedAs c ('\\' :: 'u' :: '\x7b' :: (Nat.toDigits 16 c.toNat ++ ['\x7d']))

theorem escapedAs_escape (c : Char) : EscapedAs c (escape c) := by
  simp only [escape, beq_iff_eq, Bool.or_eq_true]
  split_ifs with hmark hn hr ht hnull hnumber
  · rcases hmark with rfl | rfl
    · exact .letter (by decide)
    · exact .letter (by decide)
  · exact .letter (by rw [hn]; decide)
  · exact .letter (by rw [hr]; decide)
  · exact .letter (by rw [ht]; decide)
  · exact .letter (by rw [hnull]; decide)
  · exact .number
  · exact .itself (fun h => hmark (.inl h)) (fun h => hmark (.inr h))

theorem escapeLetters_inj {c d l : Char} (hc : (c, l) ∈ escapeLetters)
    (hd : (d, l) ∈ escapeLetters) : c = d := by
  have hall : ∀ p ∈ escapeLetters, ∀ q ∈ escapeLetters, p.2 = q.2 → p.1 = q.1 := by decide
  exact hall _ hc _ hd rfl

/-- No letter can be taken for the beginning of a number. -/
theorem ne_of_mem_escapeLetters {c l : Char} (h : (c, l) ∈ escapeLetters) : l ≠ 'u' := by
  have hall : ∀ p ∈ escapeLetters, p.2 ≠ 'u' := by decide
  exact hall _ h

namespace EscapedAs

variable {c d : Char} {cs ds x y : List Char}

/-- A character can be told from the way in which it is written, and so can what follows. -/
theorem append_inj (hc : EscapedAs c cs) (hd : EscapedAs d ds) (h : cs ++ x = ds ++ y) :
    c = d ∧ x = y := by
  cases hc with
  | itself hquote hbackslash =>
    cases hd with
    | itself => exact List.cons.inj h
    | letter => exact absurd (List.cons.inj h).1 hbackslash
    | number => exact absurd (List.cons.inj h).1 hbackslash
  | @letter l hl =>
    cases hd with
    | itself hquote hbackslash => exact absurd (List.cons.inj h).1.symm hbackslash
    | letter hl' =>
      obtain ⟨-, hrest⟩ := List.cons.inj h
      obtain ⟨rfl, hxy⟩ := List.cons.inj hrest
      exact ⟨escapeLetters_inj hl hl', hxy⟩
    | number =>
      obtain ⟨-, hrest⟩ := List.cons.inj h
      exact absurd (List.cons.inj hrest).1 (ne_of_mem_escapeLetters hl)
  | number =>
    cases hd with
    | itself hquote hbackslash => exact absurd (List.cons.inj h).1.symm hbackslash
    | letter hl =>
      obtain ⟨-, hrest⟩ := List.cons.inj h
      exact absurd (List.cons.inj hrest).1.symm (ne_of_mem_escapeLetters hl)
    | number =>
      simp only [List.cons_append, List.append_assoc, List.nil_append, List.cons.injEq,
        true_and] at h
      obtain ⟨hdigits, hxy⟩ :=
        append_cons_inj (brace_notMem_toDigits _) (brace_notMem_toDigits _) h
      exact ⟨Char.toNat_inj.1 (toDigits_inj hdigits), hxy⟩

/-- What a character is written as does not begin with the closing quote. -/
theorem append_ne_quote (hc : EscapedAs c cs) : cs ++ x ≠ '"' :: y := by
  cases hc with
  | itself hquote => exact fun h => hquote (List.cons.inj h).1
  | letter => simp
  | number => simp

end EscapedAs

/-! ## Quoted texts -/

/-- The characters up to the closing quote, and what follows it. -/
theorem quoteChars_append_inj {cs ds x y : List Char}
    (h : quoteChars cs ++ '"' :: x = quoteChars ds ++ '"' :: y) : cs = ds ∧ x = y := by
  induction cs generalizing ds with
  | nil =>
    cases ds with
    | nil => exact ⟨rfl, (List.cons.inj h).2⟩
    | cons d ds =>
      rw [quoteChars_cons, List.append_assoc] at h
      exact absurd h.symm (escapedAs_escape d).append_ne_quote
  | cons c cs ih =>
    rw [quoteChars_cons, List.append_assoc] at h
    cases ds with
    | nil => exact absurd h (escapedAs_escape c).append_ne_quote
    | cons d ds =>
      rw [quoteChars_cons, List.append_assoc] at h
      obtain ⟨rfl, hrest⟩ := (escapedAs_escape c).append_inj (escapedAs_escape d) h
      obtain ⟨rfl, hxy⟩ := ih hrest
      exact ⟨rfl, hxy⟩

theorem quote_append_inj {s t : String} {x y : List Char}
    (h : (quote s).toList ++ x = (quote t).toList ++ y) : s = t ∧ x = y := by
  simp only [quote_toList, List.cons_append, List.append_assoc, List.nil_append, List.cons.injEq,
    true_and] at h
  obtain ⟨hchars, hxy⟩ := quoteChars_append_inj h
  exact ⟨String.toList_inj.1 hchars, hxy⟩

end Text

namespace Expr

/-! ## Expressions -/

theorem chars_dump_atom (text : String) :
    Style.dump.chars (.atom text) = "Atom(".toList ++ ((Text.quote text).toList ++ [')']) := by
  rw [Style.chars]
  simp [Style.dump]

theorem chars_dump_list (items : List Expr) : Style.dump.chars (.list items) =
    "List([".toList ++ (Style.dump.itemChars items ++ [']', ')']) := rfl

/-- The first item, and what follows it: the end of the list, or a comma and the other items. -/
theorem itemChars_dump_cons (e : Expr) (es : List Expr) (x : List Char) :
    Style.dump.itemChars (e :: es) ++ x = Style.dump.chars e ++
      match es with
      | [] => x
      | e' :: es' => ',' :: ' ' :: (Style.dump.itemChars (e' :: es') ++ x) := by
  cases es with
  | nil => simp [Style.itemChars, Style.dump]
  | cons e' es => simp [Style.itemChars, Style.dump]

/-- An item cannot be taken for the end of its list. -/
theorem chars_dump_ne_bracket (e : Expr) (x y : List Char) :
    Style.dump.chars e ++ x ≠ ']' :: y := by
  cases e with
  | atom text => simp [chars_dump_atom]
  | list items => simp [chars_dump_list]

/-- The items up to the closing bracket, if each of them can be told from what follows it. -/
theorem itemChars_append_inj {as bs : List Expr} {x y : List Char}
    (hitems : ∀ a ∈ as, ∀ b x y,
      Style.dump.chars a ++ x = Style.dump.chars b ++ y → a = b ∧ x = y)
    (h : Style.dump.itemChars as ++ ']' :: x = Style.dump.itemChars bs ++ ']' :: y) :
    as = bs ∧ x = y := by
  induction as generalizing bs with
  | nil =>
    cases bs with
    | nil => exact ⟨rfl, (List.cons.inj h).2⟩
    | cons b bs =>
      rw [itemChars_dump_cons] at h
      exact absurd h.symm (chars_dump_ne_bracket _ _ _)
  | cons a as ih =>
    rw [itemChars_dump_cons] at h
    cases bs with
    | nil => exact absurd h (chars_dump_ne_bracket _ _ _)
    | cons b bs =>
      rw [itemChars_dump_cons] at h
      obtain ⟨rfl, hrest⟩ := hitems a List.mem_cons_self _ _ _ h
      -- behind the first item, a comma on one side stands against a bracket on the other
      cases as with
      | nil =>
        cases bs with
        | nil => exact ⟨rfl, (List.cons.inj hrest).2⟩
        | cons b' bs => simp at hrest
      | cons a' as =>
        cases bs with
        | nil => simp at hrest
        | cons b' bs =>
          obtain ⟨hrows, hxy⟩ := ih (fun a ha => hitems a (List.mem_cons_of_mem _ ha))
            (List.cons.inj (List.cons.inj hrest).2).2
          exact ⟨by rw [hrows], hxy⟩

/-- An expression can be told from its dump, and so can what follows. -/
theorem chars_append_inj {a b : Expr} {x y : List Char}
    (h : Style.dump.chars a ++ x = Style.dump.chars b ++ y) : a = b ∧ x = y := by
  induction a using recOnItems generalizing b x y with
  | atom s =>
    cases b with
    | atom t =>
      simp only [chars_dump_atom, List.append_assoc, List.append_cancel_left_eq] at h
      obtain ⟨rfl, hxy⟩ := Text.quote_append_inj h
      exact ⟨rfl, (List.cons.inj hxy).2⟩
    | list bs => simp [chars_dump_atom, chars_dump_list] at h
  | list as ih =>
    cases b with
    | atom t => simp [chars_dump_atom, chars_dump_list] at h
    | list bs =>
      simp only [chars_dump_list, List.append_assoc, List.append_cancel_left_eq] at h
      obtain ⟨rfl, hxy⟩ := itemChars_append_inj (fun a ha b x y => ih a ha) h
      exact ⟨rfl, (List.cons.inj hxy).2⟩

theorem toList_dump (e : Expr) : e.dump.toList = Style.dump.chars e :=
  toList_print .dump e

/-- Two expressions have the same dump, or one a dump with which the other's begins, only where they
are the same. -/
theorem dump_prefix_iff (a b : Expr) :
    (a.dump = b.dump ↔ a.same b = true) ∧
      (a.dump.toList <+: b.dump.toList ↔ a.same b = true) := by
  have hprefix : a.dump.toList <+: b.dump.toList → a = b := by
    rintro ⟨rest, h⟩
    rw [toList_dump, toList_dump, ← List.append_nil (Style.dump.chars b)] at h
    exact (chars_append_inj h).1
  rw [same_eq_true_iff]
  refine ⟨⟨fun h => hprefix (h ▸ List.prefix_rfl), fun h => ?_⟩, hprefix, fun h => ?_⟩
  · rw [h]
  · exact h ▸ List.prefix_rfl

-- the text of an atom that looks like the end of it and another item
example : (list [atom "a\"), Atom(\"b"]).dump = "List([Atom(\"a\\\"), Atom(\\\"b\")])" := by
  decide +kernel

end Expr

end Sexp
