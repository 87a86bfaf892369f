import Sexp.Proofs.Nesting
import Mathlib.Data.List.TakeWhile

/-!
# Tokens by spans

The tokens of a text, read off it span by span: every parenthesis is one, and so is every longest
run of characters that can stand in an atom, except that a run that lasts to the end of the text may
be dropped.

* `lexInduction`: a text is empty, or begins with a space or with one of its tokens.
* `lexemes_token`: the first token is followed by those of the rest of the text.
* `lexemes_append`: a text may be cut in front of a character that ends a text block.
* `lexemes_eq_append_cons`: every token stands in the text where its offset says.
* `unclosed_lexemes`, `firstOpening_of_lexemes`: the tokens have the parentheses of the text.
-/

namespace Sexp

open Sexp.Expr (isAtomChar IsAtomText)

/-- A text block in front of the text ends there. -/
def EndsBlock (cs : List Char) : Prop :=
  ∀ c ∈ cs.head?, isAtomChar c = false

/-- The tokens of a text whose first character has this offset. Unless `keep` is set, a text block
that lasts to the end is dropped. -/
def lexemes (keep : Bool) (offset : Nat) : List Char → List Located
  | [] => []
  | c :: cs =>
    if isAtomChar c then
      let word := c :: cs.takeWhile isAtomChar
      let rest := cs.dropWhile isAtomChar
      if rest.isEmpty && !keep then []
      else ⟨.text (String.ofList word), offset⟩ :: lexemes keep (offset + word.length) rest
    else if c == '(' then ⟨.lparen, offset⟩ :: lexemes keep (offset + 1) cs
    else if c == ')' then ⟨.rparen, offset⟩ :: lexemes keep (offset + 1) cs
    else lexemes keep (offset + 1) cs
termination_by cs => cs.length
decreasing_by
  · have := List.length_dropWhile_le isAtomChar cs
    simp only [List.length_cons]
    omega
  all_goals exact Nat.lt_succ_self _

namespace Token

def chars : Token → List Char
  | lparen => ['(']
  | rparen => [')']
  | text word => word.toList

def isText : Token → Bool
  | text _ => true
  | _ => false

/-- The token is the first one of its characters followed by `rest`: a text block has an atom text
and ends there. -/
def Before (rest : List Char) : Token → Prop
  | text word => IsAtomText word ∧ EndsBlock rest
  | _ => True

end Token

/-! ## Spans -/

theorem endsBlock_nil : EndsBlock [] := by simp [EndsBlock]

theorem endsBlock_cons_iff {c : Char} {cs : List Char} :
    EndsBlock (c :: cs) ↔ isAtomChar c = false := by
  simp [EndsBlock]

theorem EndsBlock.append {cs ds : List Char} (hc : EndsBlock cs) (hd : EndsBlock ds) :
    EndsBlock (cs ++ ds) := by
  cases cs with
  | nil => exact hd
  | cons c cs =>
    rw [List.cons_append, endsBlock_cons_iff]
    exact endsBlock_cons_iff.1 hc

theorem EndsBlock.of_append {cs ds : List Char} (h : EndsBlock (cs ++ ds)) : EndsBlock cs := by
  cases cs with
  | nil => exact endsBlock_nil
  | cons c cs => exact endsBlock_cons_iff.2 (endsBlock_cons_iff.1 h)

theorem isAtomChar_eq_false_iff {c : Char} :
    isAtomChar c = false ↔ c = ' ' ∨ c = '(' ∨ c = ')' := by
  simp only [isAtomChar, Bool.and_eq_false_iff, bne_eq_false_iff_eq, or_assoc]

theorem takeWhile_append_of_endsBlock {word rest : List Char}
    (hw : ∀ c ∈ word, isAtomChar c = true) (hr : EndsBlock rest) :
    (word ++ rest).takeWhile isAtomChar = word ∧ (word ++ rest).dropWhile isAtomChar = rest := by
  rw [List.takeWhile_append_of_pos hw, List.dropWhile_append_of_pos hw]
  cases rest with
  | nil => simp
  | cons c rest =>
    rw [endsBlock_cons_iff] at hr
    simp [hr]

@[simp] theorem lexemes_nil (keep : Bool) (offset : Nat) : lexemes keep offset [] = [] := by
  rw [lexemes]

@[simp] theorem lexemes_space (keep : Bool) (offset : Nat) (cs : List Char) :
    lexemes keep offset (' ' :: cs) = lexemes keep (offset + 1) cs := by
  rw [lexemes]
  rfl

@[simp] theorem lexemes_lparen (keep : Bool) (offset : Nat) (cs : List Char) :
    lexemes keep offset ('(' :: cs) = ⟨.lparen, offset⟩ :: lexemes keep (offset + 1) cs := by
  rw [lexemes]
  rfl

@[simp] theorem lexemes_rparen (keep : Bool) (offset : Nat) (cs : List Char) :
    lexemes keep offset (')' :: cs) = ⟨.rparen, offset⟩ :: lexemes keep (offset + 1) cs := by
  rw [lexemes]
  rfl

/-- The first token of a text is followed by the tokens of the rest. -/
theorem lexemes_token {t : Token} {rest : List Char} (ht : t.Before rest) (keep : Bool)
    (offset : Nat) : lexemes keep offset (t.chars ++ rest) =
      if t.isText && (rest.isEmpty && !keep) then []
      else ⟨t, offset⟩ :: lexemes keep (offset + t.chars.length) rest := by
  cases t with
  | lparen => exact lexemes_lparen keep offset rest
  | rparen => exact lexemes_rparen keep offset rest
  | text text =>
    obtain ⟨⟨hne, hchars⟩, hrest⟩ := ht
    obtain ⟨c, cs, htext⟩ := List.exists_cons_of_ne_nil (l := text.toList) (by simpa using hne)
    have hc : isAtomChar c = true := hchars c (by simp [htext])
    have hcs : ∀ d ∈ cs, isAtomChar d = true := fun d hd => hchars d (by simp [htext, hd])
    obtain ⟨htake, hdrop⟩ := takeWhile_append_of_endsBlock hcs hrest
    have hword : String.ofList (c :: cs) = text := by rw [← htext, String.ofList_toList]
    rw [Token.chars, htext, List.cons_append, lexemes, if_pos hc, htake, hdrop]
    simp only [hword, Token.isText, Bool.true_and]

theorem lexemes_true_token {t : Token} {rest : List Char} (ht : t.Before rest) (offset : Nat) :
    lexemes true offset (t.chars ++ rest) =
      ⟨t, offset⟩ :: lexemes true (offset + t.chars.length) rest := by
  rw [lexemes_token ht]
  simp

/-- Induction over a text: it is empty, or begins with a space or with a token. -/
theorem lexInduction {motive : List Char → Prop} (nil : motive [])
    (space : ∀ cs, motive cs → motive (' ' :: cs))
    (token : ∀ (t : Token) rest, t.Before rest → motive rest → motive (t.chars ++ rest)) :
    ∀ cs, motive cs
  | [] => nil
  | c :: cs => by
    by_cases hc : isAtomChar c = true
    · have hsplit : c :: cs =
          (Token.text (String.ofList (c :: cs.takeWhile isAtomChar))).chars ++
            cs.dropWhile isAtomChar := by
        simp [Token.chars]
      rw [hsplit]
      refine token _ _ ⟨⟨by simp, fun d hd => ?_⟩, fun d hd => ?_⟩
        (lexInduction nil space token (cs.dropWhile isAtomChar))
      · rw [String.toList_ofList] at hd
        rcases List.mem_cons.1 hd with rfl | hd
        · exact hc
        · exact List.mem_takeWhile_imp hd
      · have := List.head?_dropWhile_not isAtomChar cs
        rw [Option.mem_def.1 hd] at this
        exact this
    · rcases isAtomChar_eq_false_iff.1 (Bool.eq_false_iff.2 hc) with rfl | rfl | rfl
      · exact space cs (lexInduction nil space token cs)
      · exact token .lparen cs trivial (lexInduction nil space token cs)
      · exact token .rparen cs trivial (lexInduction nil space token cs)
termination_by cs => cs.length
decreasing_by
  · have := List.length_dropWhile_le isAtomChar cs
    simp only [List.length_cons]
    omega
  all_goals exact Nat.lt_succ_self _

/-! ## Cutting a text -/

theorem Token.Before.append {t : Token} {cs ds : List Char} (ht : t.Before cs)
    (hd : EndsBlock ds) : t.Before (cs ++ ds) := by
  cases t with
  | text text => exact ⟨ht.1, ht.2.append hd⟩
  | _ => trivial

theorem Token.Before.of_append {t : Token} {cs ds : List Char} (ht : t.Before (cs ++ ds)) :
    t.Before cs := by
  cases t with
  | text text => exact ⟨ht.1, ht.2.of_append⟩
  | _ => trivial

/-- A text may be cut in front of a character that ends a text block. -/
theorem lexemes_append {c : Char} (hc : isAtomChar c = false) (keep : Bool) (cs ds : List Char)
    (offset : Nat) : lexemes keep offset (cs ++ c :: ds) =
      lexemes true offset cs ++ lexemes keep (offset + cs.length) (c :: ds) := by
  induction cs using lexInduction generalizing offset with
  | nil => simp
  | space cs ih =>
    rw [List.cons_append, lexemes_space, lexemes_space, ih, List.length_cons,
      Nat.add_right_comm, Nat.add_assoc]
  | token t rest ht ih =>
    have ht' : t.Before (rest ++ c :: ds) := ht.append (endsBlock_cons_iff.2 hc)
    have hkept : (rest ++ c :: ds).isEmpty = false := by simp
    rw [List.append_assoc, lexemes_token ht', lexemes_true_token ht, ih, hkept,
      List.length_append, ← Nat.add_assoc, Bool.false_and, Bool.and_false]
    rfl

/-- Where a text ends with a character that ends a text block, nothing is dropped. -/
theorem lexemes_false_concat {c : Char} (hc : isAtomChar c = false) (cs : List Char)
    (offset : Nat) : lexemes false offset (cs ++ [c]) = lexemes true offset (cs ++ [c]) := by
  rw [lexemes_append hc, lexemes_append hc]
  rcases isAtomChar_eq_false_iff.1 hc with rfl | rfl | rfl <;> simp

theorem lexemes_false_of_isAtomText {text : String} (h : IsAtomText text) (offset : Nat) :
    lexemes false offset text.toList = [] := by
  have ht : (Token.text text).Before [] := ⟨h, endsBlock_nil⟩
  simpa [Token.chars, Token.isText] using lexemes_token ht false offset

/-! ## What the tokens say about the text -/

theorem isAtomText_of_mem_lexemes {keep : Bool} {offset k : Nat} {cs : List Char} {text : String}
    (h : ⟨.text text, k⟩ ∈ lexemes keep offset cs) : IsAtomText text := by
  induction cs using lexInduction generalizing offset with
  | nil => simp at h
  | space cs ih =>
    rw [lexemes_space] at h
    exact ih h
  | token t rest ht ih =>
    rw [lexemes_token ht] at h
    split at h
    · cases h
    · rcases List.mem_cons.1 h with h | h
      · cases h
        exact ht.1
      · exact ih h

theorem filterMap_paren?_chars {t : Token} {rest : List Char} (ht : t.Before rest) :
    t.chars.filterMap Text.paren? = [t].filterMap Token.paren? := by
  cases t with
  | lparen => rfl
  | rparen => rfl
  | text text =>
    apply List.filterMap_eq_nil_iff.2
    intro c hc
    have := ht.1.2 c hc
    simp only [isAtomChar, Bool.and_eq_true, bne_iff_ne] at this
    simp [parenOf, this]

/-- The tokens have the parentheses of the text. -/
theorem parens_lexemes (keep : Bool) (offset : Nat) (cs : List Char) :
    ((lexemes keep offset cs).map Located.token).filterMap Token.paren? =
      cs.filterMap Text.paren? := by
  induction cs using lexInduction generalizing offset with
  | nil => simp
  | space cs ih =>
    rw [lexemes_space, ih]
    rfl
  | token t rest ht ih =>
    rw [List.filterMap_append, filterMap_paren?_chars ht, lexemes_token ht]
    split
    · rename_i hdrop
      simp only [Bool.and_eq_true, List.isEmpty_iff] at hdrop
      rw [hdrop.2.1]
      cases t with
      | text text => rfl
      | _ => cases hdrop.1
    · rw [List.map_cons, ← ih (offset + t.chars.length), ← List.filterMap_append,
        List.singleton_append]

theorem unclosed_lexemes (keep : Bool) (offset : Nat) (cs : List Char) :
    unclosed ((lexemes keep offset cs).map Located.token) = Text.unclosed cs := by
  rw [unclosed, unclosedIn, parens_lexemes]
  rfl

/-- Every token stands in the text where its offset says, between a text that has the tokens before
it and one that has those after it. -/
theorem lexemes_eq_append_cons {keep : Bool} {offset : Nat} {cs : List Char} {tok : Located}
    {pre post : List Located} (h : lexemes keep offset cs = pre ++ tok :: post) :
    ∃ ds es, cs = ds ++ (tok.token.chars ++ es) ∧ tok.offset = offset + ds.length ∧
      pre = lexemes true offset ds ∧
      post = lexemes keep (tok.offset + tok.token.chars.length) es := by
  induction cs using lexInduction generalizing offset pre with
  | nil => simp at h
  | space cs ih =>
    rw [lexemes_space] at h
    obtain ⟨ds, es, rfl, hoffset, hpre, hpost⟩ := ih h
    refine ⟨' ' :: ds, es, rfl, ?_, ?_, hpost⟩
    · rw [hoffset, List.length_cons]
      omega
    · rw [hpre, lexemes_space]
  | token t rest ht ih =>
    rw [lexemes_token ht] at h
    split at h
    · simp at h
    · cases pre with
      | nil =>
        obtain ⟨rfl, rfl⟩ := List.cons.inj h
        exact ⟨[], rest, rfl, rfl, by rw [lexemes_nil], rfl⟩
      | cons first pre =>
        obtain ⟨rfl, hrest⟩ := List.cons.inj h
        obtain ⟨ds, es, rfl, hoffset, hpre, hpost⟩ := ih hrest
        refine ⟨t.chars ++ ds, es, by rw [List.append_assoc], ?_, ?_, hpost⟩
        · rw [hoffset, List.length_append, Nat.add_assoc]
        · rw [lexemes_true_token ht.of_append, hpre]

/-- The first list that is opened at a depth is opened there in the text, too. -/
theorem firstOpening_of_lexemes {keep : Bool} {cs : List Char} {pre post : List Located}
    {offset : Nat} (h : lexemes keep 0 cs = pre ++ ⟨.lparen, offset⟩ :: post)
    (hfirst : ∀ pre' k post', pre = pre' ++ ⟨.lparen, k⟩ :: post' →
      unclosed (pre'.map Located.token) ≠ unclosed (pre.map Located.token)) :
    FirstOpening '(' ')' cs (unclosed (pre.map Located.token)) offset := by
  obtain ⟨ds, es, rfl, hoffset, rfl, -⟩ := lexemes_eq_append_cons h
  obtain rfl : offset = ds.length := hoffset.trans (Nat.zero_add _)
  simp only [unclosed_lexemes] at hfirst ⊢
  refine ⟨by simp [Token.chars], by rw [List.take_left, Text.unclosed], ?_⟩
  intro k hk hopen
  rw [List.getElem?_append_left hk] at hopen
  have hsplit := eq_take_append_cons_drop hopen
  -- the parenthesis at `k` is one of the tokens before the one at `offset`
  have hcut := lexemes_append (c := '(') rfl true (ds.take k) (ds.drop (k + 1)) 0
  rw [← hsplit, lexemes_lparen] at hcut
  rw [List.take_append_of_le_length (Nat.le_of_lt hk)]
  have hne := hfirst _ _ _ hcut
  rwa [unclosed_lexemes] at hne

end Sexp
