import Sexp.Expr.Print
import Sexp.Proofs.Lexemes

/-!
# Layouts

A layout of a row of tokens is a text that spells them in order, with spaces in front, between and
behind as one likes, but at least one between two text blocks. Every text is a layout of its own
tokens and of no others.

* `map_token_lexemes_eq_iff`: the tokens of a text are the row that it is a layout of.
* `layout_nil_iff`: a layout of no tokens is a text of spaces.
* `Layout.render`: the canonical text of an expression is a layout of its flattening, whatever its
  atoms are.
* `wellFormed_iff`: an expression is well-formed iff the text blocks of its flattening are atom
  texts.
-/

namespace Sexp

open Sexp.Expr (isAtomChar IsAtomText)

/-- `Layout afterText ts cs`: the text `cs` spells the tokens `ts`, where `afterText` tells whether
a text block stands right in front of it. -/
inductive Layout : Bool → List Token → List Char → Prop
  /-- Spaces may follow the last token. -/
  | done {afterText : Bool} (gap : Nat) : Layout afterText [] (List.replicate gap ' ')
  /-- Spaces may stand in front of a token, and do so between two text blocks. -/
  | token {afterText : Bool} {t : Token} {ts : List Token} {cs : List Char} (gap : Nat) :
      (afterText = true → t.isText = true → 0 < gap) → Layout t.isText ts cs →
        Layout afterText (t :: ts) (List.replicate gap ' ' ++ (t.chars ++ cs))

namespace Layout

theorem space {a b : Bool} {ts : List Token} {cs : List Char} (h : Layout a ts cs) :
    Layout b ts (' ' :: cs) := by
  cases h with
  | done gap => exact .done (gap + 1)
  | token gap _ h => exact .token (gap + 1) (fun _ _ => Nat.succ_pos gap) h

theorem endsBlock {ts : List Token} {cs : List Char} (h : Layout true ts cs) : EndsBlock cs := by
  cases h with
  | done gap =>
    cases gap with
    | zero => exact endsBlock_nil
    | succ gap => exact endsBlock_cons_iff.2 rfl
  | @token _ t _ _ gap hgap _ =>
    cases gap with
    | succ gap => exact endsBlock_cons_iff.2 rfl
    | zero =>
      cases t with
      | lparen => exact endsBlock_cons_iff.2 rfl
      | rparen => exact endsBlock_cons_iff.2 rfl
      | text text => exact absurd (hgap rfl rfl) (Nat.lt_irrefl 0)

end Layout

/-! ## A text is a layout of its tokens -/

theorem lexemes_replicate_space (keep : Bool) (offset gap : Nat) (cs : List Char) :
    lexemes keep offset (List.replicate gap ' ' ++ cs) = lexemes keep (offset + gap) cs := by
  induction gap generalizing offset with
  | zero => rfl
  | succ gap ih =>
    rw [List.replicate_succ, List.cons_append, lexemes_space, ih]
    congr 1
    omega

/-- A layout of tokens has these tokens, if their texts can stand in a text block. -/
theorem Layout.map_token_lexemes {afterText : Bool} {ts : List Token} {cs : List Char}
    (h : Layout afterText ts cs) (hts : ∀ text, .text text ∈ ts → IsAtomText text)
    (offset : Nat) : (lexemes true offset cs).map Located.token = ts := by
  induction h generalizing offset with
  | done gap =>
    have := lexemes_replicate_space true offset gap []
    rw [List.append_nil, lexemes_nil] at this
    rw [this]
    rfl
  | @token _ t _ cs gap _ h ih =>
    have ht : t.Before cs := by
      cases t with
      | text text => exact ⟨hts text (by simp), h.endsBlock⟩
      | _ => trivial
    rw [lexemes_replicate_space, lexemes_true_token ht, List.map_cons,
      ih fun text htext => hts text (List.mem_cons_of_mem _ htext)]

theorem Token.Before.isText_eq_false {t : Token} {rest : List Char} (ht : t.Before rest)
    (h : EndsBlock (t.chars ++ rest)) : t.isText = false := by
  cases t with
  | text text =>
    obtain ⟨c, cs, htext⟩ := List.exists_cons_of_ne_nil (l := text.toList) (by simpa using ht.1.1)
    have hc := ht.1.2 c (by simp [htext])
    rw [Token.chars, htext, List.cons_append, endsBlock_cons_iff, hc] at h
    cases h
  | _ => rfl

theorem layout_lexemes (cs : List Char) (afterText : Bool) (h : afterText = true → EndsBlock cs)
    (offset : Nat) : Layout afterText ((lexemes true offset cs).map Located.token) cs := by
  induction cs using lexInduction generalizing afterText offset with
  | nil =>
    rw [lexemes_nil]
    exact .done 0
  | space cs ih =>
    rw [lexemes_space]
    exact (ih false (fun h => by cases h) (offset + 1)).space
  | token t rest ht ih =>
    rw [lexemes_true_token ht, List.map_cons]
    refine Layout.token 0 (fun hafter htext => ?_) (ih t.isText (fun htext => ?_) _)
    · rw [ht.isText_eq_false (h hafter)] at htext
      cases htext
    · cases t with
      | text text => exact ht.2
      | _ => cases htext

/-- The tokens of a text are the row of tokens that it is a layout of. -/
theorem map_token_lexemes_eq_iff {ts : List Token} {cs : List Char} {offset : Nat} :
    (lexemes true offset cs).map Located.token = ts ↔
      (∀ text, .text text ∈ ts → IsAtomText text) ∧ Layout false ts cs := by
  refine ⟨?_, fun ⟨hts, h⟩ => h.map_token_lexemes hts offset⟩
  rintro rfl
  refine ⟨?_, layout_lexemes cs false (fun h => by cases h) offset⟩
  intro text htext
  obtain ⟨⟨token, k⟩, htok, rfl⟩ := List.mem_map.1 htext
  exact isAtomText_of_mem_lexemes htok

theorem layout_nil_iff {cs : List Char} : Layout false [] cs ↔ ∀ c ∈ cs, c = ' ' := by
  constructor
  · intro h
    cases h with
    | done gap => exact fun c hc => List.eq_of_mem_replicate hc
  · intro h
    rw [List.eq_replicate_iff.2 ⟨rfl, h⟩]
    exact .done _

/-! ## Canonical texts are layouts -/

namespace Expr

theorem chars_canonical_atom (text : String) :
    Style.canonical.chars (.atom text) = text.toList := by
  simp [Style.chars, Style.canonical]

theorem itemChars_canonical (items : List Expr) :
    Style.canonical.itemChars items = items.flatMap fun e => Style.canonical.chars e ++ [' '] := by
  induction items with
  | nil => rfl
  | cons e es ih =>
    rw [Style.itemChars, ih]
    simp [Style.canonical]

theorem chars_canonical_list (items : List Expr) : Style.canonical.chars (.list items) =
    '(' :: ((items.flatMap fun e => Style.canonical.chars e ++ [' ']) ++ [')']) := by
  rw [Style.chars, itemChars_canonical]
  rfl

theorem toList_render (e : Expr) : e.render.toList = Style.canonical.chars e :=
  toList_print .canonical e

end Expr

theorem Layout.items {es : List Expr} {ts : List Token} {cs : List Char}
    (hes : ∀ e ∈ es, ∀ (afterText : Bool) (ts : List Token) (cs : List Char),
      (afterText = true → e.isAtom = false) → Layout e.isAtom ts cs →
        Layout afterText (e.tokens ++ ts) (Style.canonical.chars e ++ cs))
    (h : Layout false ts cs) :
    Layout false (es.flatMap Expr.tokens ++ ts)
      ((es.flatMap fun e => Style.canonical.chars e ++ [' ']) ++ cs) := by
  induction es with
  | nil => exact h
  | cons e es ih =>
    have hrest := ih fun e he => hes e (List.mem_cons_of_mem _ he)
    simp only [List.flatMap_cons, List.append_assoc, List.singleton_append]
    exact hes e (by simp) false _ _ (fun h => by cases h) hrest.space

theorem Layout.expr (e : Expr) {afterText : Bool} {ts : List Token} {cs : List Char}
    (hafter : afterText = true → e.isAtom = false) (h : Layout e.isAtom ts cs) :
    Layout afterText (e.tokens ++ ts) (Style.canonical.chars e ++ cs) := by
  induction e using Expr.recOnItems generalizing afterText ts cs with
  | atom text =>
    rw [Expr.tokens_atom, Expr.chars_canonical_atom]
    refine Layout.token (t := .text text) 0 (fun ha _ => ?_) h
    cases hafter ha
  | list items ih =>
    rw [Expr.tokens_list, Expr.chars_canonical_list]
    have hclose : Layout false (.rparen :: ts) (')' :: cs) :=
      Layout.token (t := .rparen) 0 (fun ha _ => by cases ha) h
    have hitems := Layout.items (fun e he _ _ _ ha hl => ih e he ha hl) hclose
    have hopen : Layout afterText _ (List.replicate 0 ' ' ++ (Token.lparen.chars ++ _)) :=
      .token 0 (fun _ ht => by cases ht) hitems
    simpa [Token.chars] using hopen

/-- The canonical text of an expression is a layout of its flattening. -/
theorem Layout.render (e : Expr) : Layout false e.tokens e.render.toList := by
  have h : Layout false _ _ := Layout.expr e (fun h => by cases h) (.done 0)
  rw [Expr.toList_render]
  simpa using h

/-! ## Well-formed expressions -/

namespace Expr

theorem text_mem_tokens_iff {e : Expr} {text : String} :
    .text text ∈ e.tokens ↔ text ∈ e.atoms := by
  induction e using Expr.recOnItems with
  | atom text' => simp
  | list items ih =>
    simp only [tokens_list, atoms_list, List.mem_cons, List.mem_append, List.mem_flatMap,
      reduceCtorEq, false_or, List.not_mem_nil, or_false]
    exact ⟨fun ⟨e, he, h⟩ => ⟨e, he, (ih e he).1 h⟩, fun ⟨e, he, h⟩ => ⟨e, he, (ih e he).2 h⟩⟩

theorem wellFormed_iff {e : Expr} :
    e.WellFormed ↔ ∀ text, .text text ∈ e.tokens → IsAtomText text := by
  simp only [text_mem_tokens_iff]
  rfl

end Expr

end Sexp
