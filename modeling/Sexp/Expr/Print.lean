import Sexp.Expr.Basic

/-!
# Printing expressions

Two styles share one printer. The canonical text of a list has a space after every item, so that
`(a (b))` is written `(a (b ) )`; the dump names the kind of every node, quotes the atoms and puts
commas between the items only. Expressions can be nested deeper than any call stack, so the printer
works off a list of pending tasks and yields the text in pieces.

* `toList_print`: what the printer writes is the recursively defined text of the expression.
-/

namespace Sexp

/-- How expressions are written. -/
structure Style where
  /-- What is written for an atom, piece by piece. -/
  atomPieces : String → List String
  opening : String
  closing : String
  /-- What is written behind an item, which may depend on whether another one follows. -/
  separator : (another : Bool) → Option String

/-- Atoms as they are, each item followed by a space. -/
def Style.canonical : Style := ⟨fun text => [text], "(", ")", fun _ => some " "⟩

/-- Nodes by kind, atoms quoted, items separated by commas. -/
def Style.dump : Style :=
  ⟨fun text => ["Atom(", Text.quote text, ")"], "List([", "])",
    fun another => if another then some ", " else none⟩

namespace Style

mutual
/-- The text of an expression. -/
def chars (style : Style) : Expr → List Char
  | .atom text => (style.atomPieces text).flatMap String.toList
  | .list items => style.opening.toList ++ (style.itemChars items ++ style.closing.toList)

def itemChars (style : Style) : List Expr → List Char
  | [] => []
  | e :: es => style.chars e ++
    ((style.separator !es.isEmpty).toList.flatMap String.toList ++ style.itemChars es)
end

end Style

namespace Expr

/-- What the printer has yet to write: an expression or a text. -/
inductive PrintTask where
  | node (e : Expr)
  | text (s : String)

/-- A bound on the printer's steps for a task. -/
noncomputable def PrintTask.cost : PrintTask → Nat
  | node e => 2 * sizeOf e
  | text _ => 1

/-- Puts one of `count` items, with its place among them, on top of the pending tasks and above what
is written behind it. -/
def pushItem (style : Style) (count : Nat) (item : Expr × Nat) (pending : List PrintTask) :
    List PrintTask :=
  .node item.1 :: ((style.separator (item.2 + 1 < count)).toList.map .text ++ pending)

/-- Puts the items on top of the pending tasks, the last one first. -/
def pushItems (style : Style) (items : List Expr) (pending : List PrintTask) : List PrintTask :=
  items.zipIdx.foldr (pushItem style items.length) pending

@[simp] theorem pushItems_nil (style : Style) (pending : List PrintTask) :
    pushItems style [] pending = pending := rfl

theorem pushItems_cons (style : Style) (e : Expr) (es : List Expr) (pending : List PrintTask) :
    pushItems style (e :: es) pending =
      .node e :: ((style.separator !es.isEmpty).toList.map .text ++ pushItems style es pending) := by
  have hfirst : decide (0 + 1 < (e :: es).length) = !es.isEmpty := by cases es <;> simp
  -- behind the first item, the places and the count are both one higher than in `es` alone
  have hrest : (fun item => pushItem style (e :: es).length (Prod.map id (· + 1) item)) =
      pushItem style es.length := by
    funext item pending
    simp [pushItem]
  rw [pushItems, List.zipIdx_cons', List.foldr_cons, List.foldr_map, hrest, pushItem, hfirst]
  rfl

theorem totalSize_pushItems_le (style : Style) (items : List Expr) (pending : List PrintTask) :
    totalSize PrintTask.cost (pushItems style items pending) ≤
      2 * sizeOf items + totalSize PrintTask.cost pending := by
  induction items with
  | nil => simp
  | cons e es ih =>
    rw [pushItems_cons]
    cases style.separator !es.isEmpty <;>
      simp only [PrintTask.cost, totalSize_cons, totalSize_append, totalSize_nil,
        Option.toList, List.map_cons, List.map_nil, List.cons.sizeOf_spec] <;> omega

def printPending (style : Style) (pending : List PrintTask) (out : Array String) : Array String :=
  match pending with
  | [] => out
  | .text s :: rest => printPending style rest (out.push s)
  | .node (.atom text) :: rest => printPending style rest (out ++ style.atomPieces text)
  | .node (.list items) :: rest =>
    printPending style (pushItems style items (.text style.closing :: rest)) (out.push style.opening)
termination_by totalSize PrintTask.cost pending
decreasing_by
  · simp only [PrintTask.cost, totalSize_cons]
    omega
  · simp only [PrintTask.cost, totalSize_cons, atom.sizeOf_spec]
    omega
  · have h := totalSize_pushItems_le style items (.text style.closing :: rest)
    simp only [PrintTask.cost, totalSize_cons, list.sizeOf_spec] at h ⊢
    omega

/-- The pieces in which an expression is written. -/
def pieces (style : Style) (e : Expr) : List String :=
  (printPending style [.node e] #[]).toList

def print (style : Style) (e : Expr) : String :=
  String.join (e.pieces style)

/-- The canonical text. -/
def render (e : Expr) : String := e.print .canonical

/-- The dump, which tells any two expressions apart. -/
def dump (e : Expr) : String := e.print .dump

/-! ## The printer writes the recursive text -/

/-- The text of a pending task. -/
def PrintTask.chars (style : Style) : PrintTask → List Char
  | node e => style.chars e
  | text s => s.toList

theorem flatMap_pushItems (style : Style) (items : List Expr) (pending : List PrintTask) :
    (pushItems style items pending).flatMap (PrintTask.chars style) =
      style.itemChars items ++ pending.flatMap (PrintTask.chars style) := by
  induction items with
  | nil => simp [Style.itemChars]
  | cons e es ih =>
    rw [pushItems_cons, List.flatMap_cons, List.flatMap_append, ih, List.flatMap_map,
      Style.itemChars]
    simp [PrintTask.chars]

theorem flatMap_printPending (style : Style) (pending : List PrintTask) (out : Array String) :
    (printPending style pending out).toList.flatMap String.toList =
      out.toList.flatMap String.toList ++ pending.flatMap (PrintTask.chars style) := by
  fun_induction printPending style pending out with
  | case1 => simp
  | case2 out s rest ih => simp [ih, PrintTask.chars]
  | case3 out text rest ih => simp [ih, PrintTask.chars, Style.chars]
  | case4 out items rest ih => simp [ih, flatMap_pushItems, PrintTask.chars, Style.chars]

theorem flatMap_pieces (style : Style) (e : Expr) :
    (e.pieces style).flatMap String.toList = style.chars e := by
  simp [pieces, flatMap_printPending, PrintTask.chars]

theorem toList_print (style : Style) (e : Expr) : (e.print style).toList = style.chars e := by
  rw [print, String.toList_join, flatMap_pieces]

@[simp] theorem render_atom (text : String) : (atom text).render = text := by
  rw [← String.toList_inj, render, toList_print]
  simp [Style.chars, Style.canonical]

end Expr

end Sexp
