import Sexp.Proofs.Reading

/-!
# Closing parentheses behind a text

The lenient reader closes what a text leaves open, and it stops at a closing parenthesis that
matches nothing. Closing parentheses behind a text therefore change nothing, be they too few, just
enough or too many, and what stands behind those that are too many changes nothing either.

* `unclosed_beforeStray`: the lists that are open when the parser stops.
* `beforeStray_append_closings`: of closing parentheses behind a row, those that close a list count.
* `lenient_parse_append_closings`: the parser would have added these anyway.
* `read_append_closings`: the same for texts.
-/

namespace Sexp

/-- The number of lists that are open at the end, if `n` were open at the beginning. A closing
parenthesis outside any list ends the row. -/
def stillOpenFrom : Nat → List Paren → Nat
  | n, [] => n
  | n, .opening :: ps => stillOpenFrom (n + 1) ps
  | 0, .closing :: _ => 0
  | n + 1, .closing :: ps => stillOpenFrom n ps

/-- The number of lists that are open at the end of a row of tokens, none if a stray closing
parenthesis has ended it before. -/
def stillOpen (ts : List Token) : Nat :=
  stillOpenFrom 0 (ts.filterMap Token.paren?)

/-- The number of lists that are open at the end of a text, none if a stray closing parenthesis has
ended it before. -/
def Text.stillOpen (cs : List Char) : Nat :=
  stillOpenFrom 0 (cs.filterMap Text.paren?)

/-! ## Closing parentheses behind tokens -/

theorem unclosedFrom_beforeStrayFrom (n : Nat) (ts : List Token) :
    unclosedFrom n ((beforeStrayFrom n ts).filterMap Token.paren?) =
      stillOpenFrom n (ts.filterMap Token.paren?) := by
  fun_induction beforeStrayFrom n ts with
  | case1 n => rfl
  | case2 n ts ih => exact ih
  | case3 ts => rfl
  | case4 n ts ih => exact ih
  | case5 n text ts ih => exact ih

/-- What the tokens in front of a stray closing parenthesis leave open. -/
theorem unclosed_beforeStray (ts : List Token) : unclosed (beforeStray ts) = stillOpen ts :=
  unclosedFrom_beforeStrayFrom 0 ts

theorem beforeStrayFrom_closings {n k : Nat} {us : List Token} (h : us = [] ∨ n < k) :
    beforeStrayFrom n (List.replicate k .rparen ++ us) = List.replicate (min k n) .rparen := by
  induction k generalizing n with
  | zero =>
    obtain rfl : us = [] := h.resolve_right (Nat.not_lt_zero n)
    rw [Nat.zero_min, List.replicate_zero, List.append_nil, beforeStrayFrom]
  | succ k ih =>
    cases n with
    | zero => rfl
    | succ n =>
      rw [List.replicate_succ, List.cons_append, beforeStrayFrom,
        ih (h.imp_right Nat.lt_of_succ_lt_succ), Nat.succ_min_succ, List.replicate_succ]

/-- Of closing parentheses behind a row, those count that close a list of the row. Nothing may stand
behind them unless there is one more. -/
theorem beforeStrayFrom_append_closings {n k : Nat} {ts us : List Token}
    (h : us = [] ∨ stillOpenFrom n (ts.filterMap Token.paren?) < k) :
    beforeStrayFrom n (ts ++ (List.replicate k .rparen ++ us)) =
      beforeStrayFrom n ts ++
        List.replicate (min k (stillOpenFrom n (ts.filterMap Token.paren?))) .rparen := by
  fun_induction beforeStrayFrom n ts with
  | case1 n => exact beforeStrayFrom_closings h
  | case2 n ts ih => exact congrArg (Token.lparen :: ·) (ih h)
  | case3 ts => exact (congrArg (List.replicate · Token.rparen) (Nat.min_zero k)).symm
  | case4 n ts ih => exact congrArg (Token.rparen :: ·) (ih h)
  | case5 n text ts ih =>
    rw [List.cons_append, beforeStrayFrom]
    exact congrArg (Token.text text :: ·) (ih h)

theorem beforeStray_append_closings {k : Nat} {ts us : List Token}
    (h : us = [] ∨ stillOpen ts < k) :
    beforeStray (ts ++ (List.replicate k .rparen ++ us)) =
      beforeStray ts ++ List.replicate (min k (stillOpen ts)) .rparen :=
  beforeStrayFrom_append_closings h

/-- Behind any row, the lenient parser goes on as if no closing parentheses followed. -/
theorem lenient_parse_append_closings {k : Nat} {ts us : List Located} {rest : List Token}
    (hus : us.map Located.token = ts.map Located.token ++ (List.replicate k .rparen ++ rest))
    (h : rest = [] ∨ stillOpen (ts.map Located.token) < k) :
    (Lenient.parse us).value = (Lenient.parse ts).value := by
  apply Lenient.parse_value_congr_completed
  rw [hus, beforeStray_append_closings h, completed_append_replicate]
  rw [unclosed_beforeStray]
  exact Nat.min_le_right _ _

/-! ## Closing parentheses behind a text -/

theorem stillOpen_lexemes (keep : Bool) (offset : Nat) (cs : List Char) :
    stillOpen ((lexemes keep offset cs).map Located.token) = Text.stillOpen cs := by
  rw [stillOpen, parens_lexemes]
  rfl

theorem map_token_lexemes_closings (keep : Bool) (offset k : Nat) (cs : List Char) :
    (lexemes keep offset (List.replicate k ')' ++ cs)).map Located.token =
      List.replicate k .rparen ++ (lexemes keep (offset + k) cs).map Located.token := by
  induction k generalizing offset with
  | zero => rfl
  | succ k ih =>
    rw [List.replicate_succ, List.cons_append, lexemes_rparen, List.map_cons, ih, Nat.add_assoc,
      Nat.add_comm 1]
    rfl

/-- A closing parenthesis behind a text ends its last text block, so that nothing is dropped. -/
theorem map_token_lexemes_append_closings {k : Nat} (hk : 1 ≤ k) (cs ds : List Char) :
    ∃ offset, (lexemes false 0 (cs ++ (List.replicate k ')' ++ ds))).map Located.token =
      (lexemes true 0 cs).map Located.token ++
        (List.replicate k .rparen ++ (lexemes false offset ds).map Located.token) := by
  obtain ⟨k, rfl⟩ : ∃ m, k = m + 1 := ⟨k - 1, by omega⟩
  refine ⟨0 + cs.length + (k + 1), ?_⟩
  rw [← map_token_lexemes_closings, ← List.map_append]
  exact congrArg (List.map Located.token) (lexemes_append rfl false cs _ 0)

/-- Closing parentheses behind a text, few or many, change nothing about what the lenient reader
makes of it, except that its last text block is not dropped. If there are more of them than lists
that are open, nothing that follows makes a difference. -/
theorem read_append_closings {n : Nat} (hn : 1 ≤ n) (src rest : String) :
    ((Reader.lenient.withTrailing true).read src).value =
        .ok (Expr.read (src ++ String.ofList (List.replicate n ')'))).value ∧
      (Text.stillOpen src.toList < n →
        ((Reader.lenient.withTrailing true).read src).value =
          .ok (Expr.read (src ++ String.ofList (List.replicate n ')') ++ rest)).value) := by
  have hread : ((Reader.lenient.withTrailing true).read src).value =
      .ok (Lenient.parse (lexemes true 0 src.toList)).value :=
    Reader.read_value _ src
  rw [hread, Expr.read_value, Expr.read_value]
  simp only [String.toList_append, String.toList_ofList, List.append_assoc]
  constructor
  · obtain ⟨offset, htokens⟩ := map_token_lexemes_append_closings hn src.toList []
    rw [List.append_nil] at htokens
    rw [lenient_parse_append_closings htokens (.inl (by rw [lexemes_nil]; rfl))]
  · intro hopen
    obtain ⟨offset, htokens⟩ := map_token_lexemes_append_closings hn src.toList rest.toList
    rw [lenient_parse_append_closings htokens (.inr (by rwa [stillOpen_lexemes]))]

/-- Two lists are open, three are closed, and another text follows. -/
theorem read_append_closings_surplus :
    Text.stillOpen "(é (b".toList = 2 ∧
      (Expr.read ("(é (b" ++ String.ofList (List.replicate 3 ')') ++ ") (c")).value =
        .list [.atom "é", .list [.atom "b"]] := by
  have hopen : Text.stillOpen "(é (b".toList = 2 := by decide
  have hread : ((Reader.lenient.withTrailing true).read "(é (b").value =
      .ok (.list [.atom "é", .list [.atom "b"]]) := by cbv
  have hsurplus :=
    (read_append_closings (n := 3) (by decide) "(é (b" ") (c").2 (by rw [hopen]; decide)
  rw [hread] at hsurplus
  exact ⟨hopen, (Except.ok.inj hsurplus).symm⟩

end Sexp
