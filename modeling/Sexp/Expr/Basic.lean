import Sexp.Text.Quoted

/-!
# Symbolic expressions

An expression is an atom, which carries an opaque text, or a list of expressions. `Expr.atom` takes
any text; the atoms that can be read back are those whose text is not empty and holds no space and
no parenthesis (`IsAtomText`), and an expression is well-formed when all of its atoms are such.
Checked atoms are made only of texts that match a pattern, which takes just the atom texts.

* `Expr.recOnItems`: induction over an expression, with the hypothesis for every item of a list.
* `atoms_list`: the atoms of a list are those of its items, in order.
* `wellFormed_list_iff`: a list is well-formed iff its items are.
* `matchesAtomPattern_iff`: the pattern takes the atom texts.
* `checkedAtom_eq_ok_iff`: an atom passes the check iff its text is an atom text.
-/

namespace Sexp

/-- A symbolic expression. -/
inductive Expr where
  | atom (text : String)
  | list (items : List Expr)

instance : Inhabited Expr := ⟨.list []⟩

namespace Expr

def isAtom : Expr → Bool
  | atom _ => true
  | list _ => false

def isList : Expr → Bool
  | atom _ => false
  | list _ => true

/-- The text of an atom; a list has none. -/
def text? : Expr → Option String
  | atom text => some text
  | list _ => none

/-- The items of a list; an atom has none. -/
def items? : Expr → Option (List Expr)
  | atom _ => none
  | list items => some items

/-- The items of a list; an atom is handed back whole. -/
def toItems : Expr → Except Expr (List Expr)
  | atom text => .error (atom text)
  | list items => .ok items

/-! ## Induction -/

/-- Induction over an expression: a list has the hypothesis for each of its items. -/
theorem recOnItems {motive : Expr → Prop} (atom : ∀ text, motive (atom text))
    (list : ∀ items, (∀ e ∈ items, motive e) → motive (list items)) : ∀ e, motive e
  | .atom text => atom text
  | .list items => list items fun e _ => recOnItems atom list e
termination_by e => sizeOf e
decreasing_by
  have := List.sizeOf_lt_of_mem ‹e ∈ items›
  simp only [Expr.list.sizeOf_spec]
  omega

/-- The sizes of the entries of a work list, added up. The work lists of expressions end because it
gets smaller with every step. -/
def totalSize {α : Type} (size : α → Nat) : List α → Nat
  | [] => 0
  | a :: as => size a + totalSize size as

@[simp] theorem totalSize_nil {α : Type} (size : α → Nat) : totalSize size [] = 0 := rfl

@[simp] theorem totalSize_cons {α : Type} (size : α → Nat) (a : α) (as : List α) :
    totalSize size (a :: as) = size a + totalSize size as := rfl

@[simp] theorem totalSize_append {α : Type} (size : α → Nat) (as bs : List α) :
    totalSize size (as ++ bs) = totalSize size as + totalSize size bs := by
  induction as with
  | nil => simp
  | cons a as ih => simp only [List.cons_append, totalSize_cons, ih]; omega

theorem totalSize_perm {α : Type} (size : α → Nat) {as bs : List α} (h : as.Perm bs) :
    totalSize size as = totalSize size bs := by
  induction h with
  | nil => rfl
  | cons a _ ih => rw [totalSize_cons, totalSize_cons, ih]
  | swap a b cs => simp only [totalSize_cons]; omega
  | trans _ _ ih ih' => rw [ih, ih']

/-- A list is larger than its items taken together. -/
theorem totalSize_lt (items : List Expr) : totalSize sizeOf items < sizeOf items := by
  induction items with
  | nil => simp
  | cons e es ih => simp only [totalSize_cons, List.cons.sizeOf_spec]; omega

/-! ## Atoms and well-formed expressions -/

mutual
/-- The texts of the atoms, from left to right. -/
def atoms : Expr → List String
  | atom text => [text]
  | list items => atomsAll items

def atomsAll : List Expr → List String
  | [] => []
  | e :: es => e.atoms ++ atomsAll es
end

@[simp] theorem atoms_atom (text : String) : (atom text).atoms = [text] := by simp [atoms]

theorem atomsAll_eq_flatMap (es : List Expr) : atomsAll es = es.flatMap atoms := by
  induction es with
  | nil => simp [atomsAll]
  | cons e es ih => simp [atomsAll, ih]

@[simp] theorem atoms_list (items : List Expr) : (list items).atoms = items.flatMap atoms := by
  simp [atoms, atomsAll_eq_flatMap]

/-- Neither the space nor a parenthesis can stand in an atom. Every other character can, line feeds
and tabs included. -/
def isAtomChar (c : Char) : Bool :=
  c != ' ' && c != '(' && c != ')'

/-- The texts that a reader can find as an atom. -/
def IsAtomText (text : String) : Prop :=
  text ≠ "" ∧ ∀ c ∈ text.toList, isAtomChar c = true

/-- Every atom, at any depth, has an atom text. -/
def WellFormed (e : Expr) : Prop :=
  ∀ text ∈ e.atoms, IsAtomText text

@[simp] theorem wellFormed_atom_iff {text : String} :
    (atom text).WellFormed ↔ IsAtomText text := by
  simp [WellFormed]

@[simp] theorem wellFormed_list_iff {items : List Expr} :
    (list items).WellFormed ↔ ∀ e ∈ items, e.WellFormed := by
  simp only [WellFormed, atoms_list, List.mem_flatMap]
  exact ⟨fun h e he text ht => h text ⟨e, he, ht⟩, fun h text ⟨e, he, ht⟩ => h e he text ht⟩

end Expr

/-! ## Checked atoms -/

/-- The refusal of a text that no reader could find as an atom. -/
structure AtomError where
  text : String
  deriving DecidableEq

/-- The wording of the refusal. -/
def AtomError.message (e : AtomError) : String :=
  "invalid atom " ++ Text.quote e.text ++
    ": atoms are non-empty and contain no spaces or parentheses"

/-- Whether the characters are one or more of a class, from the first to the last. -/
def Text.oneOrMore (p : Char → Bool) : List Char → Bool
  | [] => false
  | [c] => p c
  | c :: d :: cs => p c && oneOrMore p (d :: cs)

theorem Text.oneOrMore_iff {p : Char → Bool} {cs : List Char} :
    oneOrMore p cs = true ↔ cs ≠ [] ∧ ∀ c ∈ cs, p c = true := by
  fun_induction oneOrMore p cs with
  | case1 => simp
  | case2 c => simp
  | case3 c d cs ih => simp [ih]

namespace Expr

/-- The class `[^() ]`. -/
def inAtomClass (c : Char) : Bool :=
  !(['(', ')', ' '].contains c)

/-- The pattern `^[^() ]+$`, where nothing but the ends of the text is matched by `^` and `$`. -/
def matchesAtomPattern (text : String) : Bool :=
  Text.oneOrMore inAtomClass text.toList

theorem matchesAtomPattern_iff {text : String} :
    matchesAtomPattern text = true ↔ IsAtomText text := by
  have hclass : ∀ c, inAtomClass c = isAtomChar c := fun c => by
    simp only [inAtomClass, isAtomChar, List.contains_cons, List.contains_nil]
    grind
  simp only [matchesAtomPattern, Text.oneOrMore_iff, hclass, IsAtomText, ne_eq,
    String.toList_eq_nil_iff]

/-- The atom with this text, provided that it matches the pattern. -/
def checkedAtom (text : String) : Except AtomError Expr :=
  if matchesAtomPattern text then .ok (.atom text) else .error ⟨text⟩

theorem checkedAtom_eq_ok_iff {text : String} {e : Expr} :
    checkedAtom text = .ok e ↔ IsAtomText text ∧ e = .atom text := by
  rw [← matchesAtomPattern_iff, checkedAtom]
  split
  · simp [*, eq_comm]
  · simp [*]

end Expr

end Sexp
