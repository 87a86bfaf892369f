import Sexp.Proofs.DumpDecoding
import Sexp.Proofs.Layout
import Sexp.Proofs.Truncation

/-!
# What is printed

The printer works off a list of tasks and yields pieces. Put together, they are the text that the
style gives the expression, defined by recursion. They are written one after the other, so whoever
takes them has that text as a whole in the end, or a front of it when a write has failed.

* `Expr.render_eq_shown`, `Expr.dump_eq_dumped`: the texts by recursion.
* `Formatter`: somewhere to print to, which may fail at any point of any write.
* `Formatter.wrote_texts`: what is there after one write behind the other.
* `Sink.wrote_pieces`: what a sink holds after an expression was printed to it.
* `Expr.print_exact`: the same for every formatter, in both styles.
-/

namespace Sexp

namespace Expr

/-! ## The texts by recursion -/

mutual
/-- The canonical text: an atom is its text, and in a list every item has a space behind it. -/
def shown : Expr → String
  | atom text => text
  | list items => "(" ++ String.join (shownAll items) ++ ")"

def shownAll : List Expr → List String
  | [] => []
  | e :: es => (e.shown ++ " ") :: shownAll es
end

mutual
/-- The dump: nodes by kind, atoms quoted, and a comma between any two consecutive items. -/
def dumped : Expr → String
  | atom text => "Atom(" ++ Text.quote text ++ ")"
  | list items => "List([" ++ ", ".intercalate (dumpedAll items) ++ "])"

def dumpedAll : List Expr → List String
  | [] => []
  | e :: es => e.dumped :: dumpedAll es
end

theorem shownAll_eq_map (es : List Expr) : shownAll es = es.map fun e => e.shown ++ " " := by
  induction es with
  | nil => rfl
  | cons e es ih => rw [shownAll, ih, List.map_cons]

theorem dumpedAll_eq_map (es : List Expr) : dumpedAll es = es.map dumped := by
  induction es with
  | nil => rfl
  | cons e es ih => rw [dumpedAll, ih, List.map_cons]

theorem toList_shown (e : Expr) : e.shown.toList = Style.canonical.chars e := by
  induction e using recOnItems with
  | atom text => rw [shown, chars_canonical_atom]
  | list items ih =>
    have hitems : (items.map fun e => e.shown ++ " ").flatMap String.toList =
        items.flatMap fun e => Style.canonical.chars e ++ [' '] := by
      rw [List.flatMap_map, List.flatMap_def, List.flatMap_def]
      refine congrArg List.flatten (List.map_congr_left fun e he => ?_)
      rw [String.toList_append, ih e he]
      rfl
    rw [shown, shownAll_eq_map, String.toList_append, String.toList_append, String.toList_join,
      hitems, chars_canonical_list]
    rfl

theorem itemChars_dump (items : List Expr) :
    Style.dump.itemChars items = [',', ' '].intercalate (items.map Style.dump.chars) := by
  induction items with
  | nil => rfl
  | cons e es ih =>
    cases es with
    | nil => simp [Style.itemChars, Style.dump, List.intercalate]
    | cons e' es =>
      rw [Style.itemChars, ih]
      simp [Style.dump, List.intercalate]

theorem toList_dumped (e : Expr) : e.dumped.toList = Style.dump.chars e := by
  induction e using recOnItems with
  | atom text =>
    rw [dumped, chars_dump_atom]
    simp
  | list items ih =>
    have hitems : (items.map dumped).map String.toList = items.map Style.dump.chars := by
      rw [List.map_map]
      exact List.map_congr_left ih
    rw [dumped, dumpedAll_eq_map, String.toList_append, String.toList_append,
      String.toList_intercalate, hitems, chars_dump_list, itemChars_dump, List.append_assoc]
    rfl

theorem render_eq_shown (e : Expr) : e.render = e.shown := by
  rw [← String.toList_inj, toList_render, toList_shown]

theorem dump_eq_dumped (e : Expr) : e.dump = e.dumped := by
  rw [← String.toList_inj, toList_dump, toList_dumped]

end Expr

/-! ## Writes that may fail -/

/-- What is there when `bytes` are written behind `before`: all of them, or after a fault a front of
them. -/
inductive Wrote {ε : Type} (before bytes : ByteArray) : ByteArray → Option ε → Prop
  | all : Wrote before bytes (before ++ bytes) none
  | front {front back : ByteArray} (h : bytes = front ++ back) (fault : ε) :
    Wrote before bytes (before ++ front) (some fault)

namespace Wrote

variable {ε : Type} {before bytes bytes' after : ByteArray} {fault? : Option ε} {fault : ε}

theorem eq_append (h : Wrote before bytes after (none : Option ε)) : after = before ++ bytes := by
  cases h
  rfl

/-- A second write, behind the first. -/
theorem behind (h : Wrote (before ++ bytes) bytes' after fault?) :
    Wrote before (bytes ++ bytes') after fault? := by
  cases h with
  | all =>
    rw [ByteArray.append_assoc]
    exact .all
  | front h fault =>
    rw [ByteArray.append_assoc]
    exact .front (by rw [h, ByteArray.append_assoc]) fault

/-- No second write after a fault. -/
theorem stopped (h : Wrote before bytes after (some fault)) :
    Wrote before (bytes ++ bytes') after (some fault) := by
  cases h with
  | front h => exact .front (by rw [h, ByteArray.append_assoc]) fault

end Wrote

/-- Somewhere to print to, with states `σ` and faults `ε`. -/
structure Formatter (σ ε : Type) where
  /-- The bytes that are there. -/
  taken : σ → ByteArray
  write : σ → String → σ × Option ε
  wrote : ∀ s text, Wrote (taken s) text.toUTF8 (taken (write s text).1) (write s text).2

namespace Formatter

variable {σ ε : Type}

/-- Writes the texts one after the other, up to the first fault. -/
def writeTexts (f : Formatter σ ε) (s : σ) : List String → σ × Option ε
  | [] => (s, none)
  | text :: texts =>
    match f.write s text with
    | (s, none) => f.writeTexts s texts
    | (s, some fault) => (s, some fault)

theorem wrote_texts (f : Formatter σ ε) (s : σ) (texts : List String) :
    Wrote (f.taken s) (String.join texts).toUTF8 (f.taken (f.writeTexts s texts).1)
      (f.writeTexts s texts).2 := by
  induction texts generalizing s with
  | nil =>
    have hall : Wrote (f.taken s) .empty (f.taken s ++ .empty) (none : Option ε) := .all
    rwa [ByteArray.append_empty, ← Text.toUTF8_join_nil] at hall
  | cons text texts ih =>
    have hwrote := f.wrote s text
    rw [Text.toUTF8_join_cons, writeTexts]
    rcases hwrite : f.write s text with ⟨s', _ | fault⟩
    · rw [hwrite] at hwrote
      have hrest := ih s'
      rw [hwrote.eq_append] at hrest
      exact hrest.behind
    · rw [hwrite] at hwrote
      exact hwrote.stopped

end Formatter

/-! ## Sinks -/

namespace Sink

/-- A sink, with or without a limit, is somewhere to print to. -/
def formatter : Formatter Sink StreamFault where
  taken := Sink.written
  write s text := s.writeAll text.toUTF8
  wrote := by
    rintro ⟨written, _ | room, refusal⟩ text
    · rw [writeAll_unlimited]
      exact .all
    · by_cases hfits : text.toUTF8.size ≤ room
      · rw [writeAll_of_le hfits]
        exact .all
      · have hcut : text.toUTF8 =
            text.toUTF8.extract 0 room ++ text.toUTF8.extract room text.toUTF8.size := by
          rw [ByteArray.extract_append_extract, Nat.zero_min, Nat.max_eq_right (by omega),
            ByteArray.extract_zero_size]
        rw [writeAll_of_lt (by omega)]
        exact .front hcut refusal.fault

theorem writeTexts_formatter (s : Sink) (texts : List String) :
    formatter.writeTexts s texts = s.writeTexts texts := by
  induction texts generalizing s with
  | nil => rfl
  | cons text texts ih =>
    rw [writeTexts, Formatter.writeTexts]
    rcases hwrite : s.writeAll text.toUTF8 with ⟨s', _ | fault⟩
    · have hwrite' : formatter.write s text = (s', none) := hwrite
      simp only [hwrite', ih]
    · have hwrite' : formatter.write s text = (s', some fault) := hwrite
      simp only [hwrite']

/-- What a sink holds after an expression was printed to it. -/
theorem wrote_pieces (s : Sink) (style : Style) (e : Expr) :
    Wrote s.written (e.print style).toUTF8 (s.writeTexts (e.pieces style)).1.written
      (s.writeTexts (e.pieces style)).2 := by
  rw [← writeTexts_formatter]
  exact formatter.wrote_texts s (e.pieces style)

end Sink

/-! ## Expressions -/

/-- The printer writes the recursively defined texts, in both styles. Whoever takes its pieces one
after the other, up to the first fault, has the whole text behind what was there before, or after
the fault a front of it. -/
theorem Expr.print_exact (e : Expr) :
    e.render = e.shown ∧ e.dump = e.dumped ∧
      ∀ {σ ε : Type} (f : Formatter σ ε) (s : σ),
        Wrote (f.taken s) e.shown.toUTF8 (f.taken (f.writeTexts s (e.pieces .canonical)).1)
            (f.writeTexts s (e.pieces .canonical)).2 ∧
          Wrote (f.taken s) e.dumped.toUTF8 (f.taken (f.writeTexts s (e.pieces .dump)).1)
            (f.writeTexts s (e.pieces .dump)).2 := by
  refine ⟨render_eq_shown e, dump_eq_dumped e, fun f s => ⟨?_, ?_⟩⟩
  · rw [← render_eq_shown]
    exact f.wrote_texts s (e.pieces .canonical)
  · rw [← dump_eq_dumped]
    exact f.wrote_texts s (e.pieces .dump)

end Sexp
