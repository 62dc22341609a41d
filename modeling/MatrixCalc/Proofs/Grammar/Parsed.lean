/-
**Parsed expressions are trees with rectangular literals.**

What the parser of expressions gives lists an expression tree in postorder, and so does each cell of each
matrix literal in it, however deep.  A literal is empty or its rows have the same number of cells, at
least one.  So an operator of a parsed expression always has its operands, and nothing is left over.

Main definitions:

* `MatrixCalc.Rectangular`, `MatrixCalc.ExprTree.Rectangular` — rows of the same positive length, and
  trees all of whose literals have such rows;
* `MatrixCalc.Expr.Within` — an expression is a part of another one, at any depth;
* `MatrixCalc.Parse.ReadsLiteral` — what the parser of literals does from one place in a text to another.

Main results:

* `MatrixCalc.Grammar.Literal.exists_cell` — the cells of a literal are read from fewer tokens;
* `MatrixCalc.Parse.exists_tree_of_expression_gives`, `MatrixCalc.Parse.exists_tree_of_statement_gives` —
  parsed expressions are trees;
* `MatrixCalc.Parse.literal_grammar` — **the parser of literals accepts the grammar, and every parsed
  literal is rectangular**.
-/

import MatrixCalc.Parse.Statements
import MatrixCalc.Proofs.Evaluation.Tree
import MatrixCalc.Proofs.Grammar.Literal

set_option autoImplicit false

namespace MatrixCalc

variable {finish : Position}

/-! ### Rectangular literals -/

/-- There is no row, or all rows have the same number of cells, at least one. -/
def Rectangular {α : Type} (rows : List (List α)) : Prop :=
  rows = [] ∨ ∃ n, 0 < n ∧ ∀ row ∈ rows, row.length = n

namespace ExprTree

/-- All literals of a tree are rectangular, those in the cells of others too. -/
inductive Rectangular : ExprTree → Prop where
  | number (l : Int) (x : Float) : Rectangular (.number l x)
  | name (l : Int) (n : String) : Rectangular (.name l n)
  | literal {l : Int} {rows : List (List ExprTree)} (shape : MatrixCalc.Rectangular rows)
      (cells : ∀ row ∈ rows, ∀ t ∈ row, Rectangular t) : Rectangular (.literal l rows)
  | node {l : Int} {op : Operator} {left right : ExprTree} (hl : Rectangular left)
      (hr : Rectangular right) : Rectangular (.node l op left right)
  | grouped {l : Int} {t : ExprTree} (h : Rectangular t) : Rectangular (.grouped l t)

theorem cellExprs_eq_map (ts : List ExprTree) :
    cellExprs ts = ts.map fun t => Expr.ofItems t.line t.postorder := by
  induction ts with
  | nil => rw [cellExprs, List.map_nil]
  | cons t ts ih => rw [cellExprs, ih, List.map_cons]

theorem rowsExprs_eq_map (rows : List (List ExprTree)) : rowsExprs rows = rows.map cellExprs := by
  induction rows with
  | nil => rw [rowsExprs, List.map_nil]
  | cons row rows ih => rw [rowsExprs, ih, List.map_cons]

/-- Cells that are trees one by one are cells of trees. -/
theorem exists_cellExprs {P : ExprTree → Prop} {es : List Expr}
    (h : ∀ e ∈ es, ∃ t, P t ∧ Expr.ofItems t.line t.postorder = e) :
    ∃ ts, cellExprs ts = es ∧ ∀ t ∈ ts, P t := by
  induction es with
  | nil => exact ⟨[], by rw [cellExprs], by simp⟩
  | cons e es ih =>
      obtain ⟨t, ht, rfl⟩ := h e (by simp)
      obtain ⟨ts, rfl, hts⟩ := ih fun e he => h e (by simp [he])
      exact ⟨t :: ts, by rw [cellExprs], by simpa [ht] using hts⟩

/-- Rows whose cells are trees one by one are rows of trees. -/
theorem exists_rowsExprs {P : ExprTree → Prop} {rows : List (List Expr)}
    (h : ∀ row ∈ rows, ∀ e ∈ row, ∃ t, P t ∧ Expr.ofItems t.line t.postorder = e) :
    ∃ trees, rowsExprs trees = rows ∧ ∀ row ∈ trees, ∀ t ∈ row, P t := by
  induction rows with
  | nil => exact ⟨[], by rw [rowsExprs], by simp⟩
  | cons row rows ih =>
      obtain ⟨ts, rfl, hts⟩ := exists_cellExprs (h row (by simp))
      obtain ⟨trees, rfl, htrees⟩ := ih fun row hrow => h row (by simp [hrow])
      refine ⟨ts :: trees, by rw [rowsExprs], ?_⟩
      intro row hrow
      rcases List.mem_cons.1 hrow with rfl | hrow
      · exact hts
      · exact htrees row hrow

/-- Rows of trees are as long as the rows of their cells. -/
theorem rectangular_rowsExprs {rows : List (List ExprTree)} :
    MatrixCalc.Rectangular (rowsExprs rows) ↔ MatrixCalc.Rectangular rows := by
  simp [MatrixCalc.Rectangular, rowsExprs_eq_map, cellExprs_eq_map]

/-- A sequence keeps the line where it starts, which is not that of its topmost operator. -/
theorem Rectangular.exists_ofItems_eq {t : ExprTree} (ht : t.Rectangular) (line : Int) :
    ∃ t' : ExprTree, t'.Rectangular ∧
      Expr.ofItems t'.line t'.postorder = Expr.ofItems line t.postorder := by
  match hes : t.postorder with
  | [] => exact absurd hes t.postorder_ne_nil
  | [e] => exact ⟨t, ht, by rw [hes]; rfl⟩
  | e :: e' :: es =>
      refine ⟨.grouped line t, .grouped ht, ?_⟩
      rw [postorder, hes]
      rfl

end ExprTree

/-! ### Parts of an expression -/

namespace Expr

/-- An expression is another one or a part of it: a cell of a literal or an item of a sequence, at any
depth. -/
inductive Within : Expr → Expr → Prop where
  | self (e : Expr) : Within e e
  | cell {e c : Expr} {line : Int} {rows : List (List Expr)} {row : List Expr} (hr : row ∈ rows)
      (hc : c ∈ row) (h : Within e c) : Within e (.matrix line rows)
  | item {e i : Expr} {line : Int} {items : List Expr} (hi : i ∈ items) (h : Within e i) :
      Within e (.sequence line items)

/-- A literal in an expression is one of its items, or in one of them. -/
theorem Within.of_ofItems {line l : Int} {rows : List (List Expr)} {items : List Expr}
    (h : (matrix line rows).Within (Expr.ofItems l items)) :
    ∃ i ∈ items, (matrix line rows).Within i := by
  match items, h with
  | [e], h => exact ⟨e, by simp, h⟩
  | [], .item hi h => exact ⟨_, hi, h⟩
  | _ :: _ :: _, .item hi h => exact ⟨_, hi, h⟩

end Expr

/-- The literals in the items of a tree are rectangular if those of the tree are. -/
theorem ExprTree.Rectangular.of_within {t : ExprTree} (ht : t.Rectangular) {line : Int}
    {rows : List (List Expr)} :
    ∀ i ∈ t.postorder, (Expr.matrix line rows).Within i → MatrixCalc.Rectangular rows := by
  induction ht with
  | number l x | name l n =>
      intro i hi h
      rw [postorder, List.mem_singleton] at hi
      subst hi
      cases h
  | literal shape _ ih =>
      intro i hi h
      rw [postorder, List.mem_singleton] at hi
      subst hi
      cases h with
      | self => exact rectangular_rowsExprs.2 shape
      | cell hr hc h =>
          rw [rowsExprs_eq_map, List.mem_map] at hr
          obtain ⟨row, hrow, rfl⟩ := hr
          rw [cellExprs_eq_map, List.mem_map] at hc
          obtain ⟨t, ht, rfl⟩ := hc
          obtain ⟨i, hi, h⟩ := h.of_ofItems
          exact ih row hrow t ht i hi h
  | node _ _ ihl ihr =>
      intro i hi h
      rw [postorder, List.mem_append, List.mem_append, List.mem_singleton] at hi
      rcases hi with (hi | hi) | rfl
      · exact ihl i hi h
      · exact ihr i hi h
      · cases h
  | grouped _ ih =>
      intro i hi h
      rw [postorder, List.mem_singleton] at hi
      subst hi
      cases h with
      | item hi h => exact ih _ hi h

/-! ### The cells of a literal -/

namespace Grammar

theorem LineEnds.length_le {ts rest : List Token} (h : LineEnds ts rest) : rest.length ≤ ts.length := by
  induction h with
  | none => exact Nat.le_refl _
  | more _ _ ih => exact Nat.le_succ_of_le ih

theorem Gap.length_le {ts rest : List Token} (h : Gap ts rest) : rest.length ≤ ts.length := by
  cases h with
  | comma => exact Nat.le_succ _
  | nothing => exact Nat.le_refl _

theorem FinalComma.length_le {ts rest : List Token} (h : FinalComma ts rest) :
    rest.length ≤ ts.length := by
  cases h with
  | absent => exact Nat.le_refl _
  | present => exact Nat.le_succ _

theorem Separator.length_le {ts rest : List Token} (h : Separator ts rest) :
    rest.length ≤ ts.length := by
  obtain ⟨-, hl⟩ := h
  exact Nat.le_succ_of_le hl.length_le

/-- Further cells are read from the tokens that are left. -/
theorem MoreCells.exists_cell {ts rest : List Token} {es : List Expr} (h : MoreCells finish ts es rest) :
    rest.length ≤ ts.length ∧ ∀ e ∈ es, ∃ start mid, start.length ≤ ts.length ∧
      Cell finish start e mid := by
  induction h with
  | none => exact ⟨Nat.le_refl _, by simp⟩
  | @more ts start mid rest e es gap cell _ ih =>
      have hgap := gap.length_le
      have hcell : mid.length < start.length := cell.length_lt
      refine ⟨by omega, fun e' he' => ?_⟩
      rcases List.mem_cons.1 he' with rfl | he'
      · exact ⟨start, mid, hgap, cell⟩
      · obtain ⟨start', mid', hlength, hc⟩ := ih.2 e' he'
        exact ⟨start', mid', by omega, hc⟩

theorem Row.exists_cell {ts rest : List Token} {row : List Expr} (h : Row finish ts row rest) :
    rest.length ≤ ts.length ∧ ∀ e ∈ row, ∃ start mid, start.length ≤ ts.length ∧
      Cell finish start e mid := by
  obtain ⟨cell, more, comma⟩ := h
  have hcell := cell.length_lt
  have hcomma := comma.length_le
  obtain ⟨hmore, hcells⟩ := more.exists_cell
  refine ⟨by omega, fun e he => ?_⟩
  rcases List.mem_cons.1 he with rfl | he
  · exact ⟨_, _, Nat.le_refl _, cell⟩
  · obtain ⟨start, mid, hlength, hc⟩ := hcells e he
    exact ⟨start, mid, by omega, hc⟩

theorem MoreRows.exists_cell {ts rest : List Token} {rows : List (List Expr)}
    (h : MoreRows finish ts rows rest) :
    ∀ row ∈ rows, ∀ e ∈ row, ∃ start mid, start.length ≤ ts.length ∧ Cell finish start e mid := by
  induction h with
  | none => simp
  | more separator first _ ih =>
      have hseparator := separator.length_le
      obtain ⟨hrow, hcells⟩ := first.exists_cell
      intro row hm e he
      rcases List.mem_cons.1 hm with rfl | hm
      · obtain ⟨start, mid, hlength, hc⟩ := hcells e he
        exact ⟨start, mid, by omega, hc⟩
      · obtain ⟨start, mid, hlength, hc⟩ := ih row hm e he
        exact ⟨start, mid, by omega, hc⟩

/-- The cells of a literal are read from fewer tokens than the literal. -/
theorem Literal.exists_cell {ts rest : List Token} {rows : List (List Expr)}
    (h : Literal finish ts rows rest) :
    ∀ row ∈ rows, ∀ e ∈ row, ∃ start mid, start.length < ts.length ∧ Cell finish start e mid := by
  cases h with
  | empty => simp
  | rows _ first more =>
      obtain ⟨hrow, hcells⟩ := first.exists_cell
      intro row hm e he
      simp only [List.length_cons]
      rcases List.mem_cons.1 hm with rfl | hm
      · obtain ⟨start, mid, hlength, hc⟩ := hcells e he
        exact ⟨start, mid, by omega, hc⟩
      · obtain ⟨start, mid, hlength, hc⟩ := more.exists_cell row hm e he
        exact ⟨start, mid, by omega, hc⟩

/-- A literal is empty, or its rows have the same number of cells, at least one. -/
theorem Literal.rectangular {ts rest : List Token} {rows : List (List Expr)}
    (h : Literal finish ts rows rest) : Rectangular rows := by
  cases h with
  | empty => exact .inl rfl
  | rows _ first _ _ _ same =>
      refine .inr ⟨_, List.length_pos_iff.2 first.ne_nil, fun row hm => same row hm _ (by simp)⟩

/-! ### Derivation trees as expression trees -/

/-- The operands and operators of a derivation are those of an expression tree, if the cells of fewer
tokens are such trees. -/
theorem Tree.exists_exprTree {n : Nat}
    (hcell : ∀ ts e rest, ts.length < n → Cell finish ts e rest →
      ∃ t : ExprTree, t.Rectangular ∧ Expr.ofItems t.line t.postorder = e)
    {v : Level} (t : Tree finish v) (ht : t.tokens.length ≤ n) :
    ∃ t' : ExprTree, t'.Rectangular ∧ t'.postorder = t.postorder := by
  induction t with
  | leaf l =>
      cases l with
      | number u x hk => exact ⟨.number u.position.line x.toFloat, .number _ _, by rw [ExprTree.postorder]; rfl⟩
      | name u hk => exact ⟨.name u.position.line u.text, .name _ _, by rw [ExprTree.postorder]; rfl⟩
      | literal u body value hk hr =>
          -- each cell is read from fewer tokens
          obtain ⟨rows, hl, rfl⟩ := (Parse.matrix_gives_iff hk).1 hr
          have hlength : (u :: body).length ≤ n := by
            simpa [tokens, terminals, Terminal.tokens, Leaf.tokens] using ht
          obtain ⟨trees, rfl, htrees⟩ := ExprTree.exists_rowsExprs fun row hm e he => by
            obtain ⟨start, mid, hlt, hc⟩ := hl.exists_cell row hm e he
            exact hcell start e mid (by omega) hc
          refine ⟨.literal u.position.line trees, .literal ?_ htrees, by rw [ExprTree.postorder]; rfl⟩
          exact ExprTree.rectangular_rowsExprs.1 hl.rectangular
  | paren p inner q ih =>
      simp only [tokens, terminals, List.flatMap_cons, List.flatMap_append, List.length_append] at ht
      exact ih (by rw [tokens]; omega)
  | ofAtom a ih | ofProduct a ih | ofSum a ih => exact ih ht
  | product l o r ihl ihr | sum l o r ihl ihr | assign l o r ihl ihr =>
      simp only [tokens, terminals, List.flatMap_cons, List.flatMap_append, List.length_append] at ht
      obtain ⟨left, hleft, hl⟩ := ihl (by rw [tokens]; omega)
      obtain ⟨right, hright, hr⟩ := ihr (by rw [tokens]; omega)
      refine ⟨.node o.token.position.line o.op left right, .node hleft hright, ?_⟩
      rw [ExprTree.postorder, hl, hr]
      rfl

end Grammar

namespace Parse

open Grammar

/-! ### What the parsers give -/

/-- Parsed expressions are trees, by induction on a bound of the number of tokens: the cells of a literal
are expressions of fewer tokens. -/
theorem exists_tree_of_length_le (k : Nat) :
    ∀ {ts rest : List Token} {inMatrix : Bool} {e : Expr}, ts.length ≤ k →
      (expression finish inMatrix ts).Gives e rest →
      ∃ t : ExprTree, t.Rectangular ∧ Expr.ofItems t.line t.postorder = e := by
  induction k with
  | zero =>
      intro ts rest inMatrix e hk h
      exact absurd (Nat.lt_of_lt_of_le h.length_lt hk) (Nat.not_lt_zero _)
  | succ k ih =>
      intro ts rest inMatrix e hk h
      obtain ⟨d, rfl, -, rfl⟩ := expression_gives_iff.1 h
      rw [List.length_append] at hk
      have hcell : ∀ ts e rest, ts.length < k + 1 → Cell finish ts e rest →
          ∃ t : ExprTree, t.Rectangular ∧ Expr.ofItems t.line t.postorder = e :=
        fun ts e rest hlt hc => ih (Nat.le_of_lt_succ hlt) hc
      obtain ⟨t, ht, hp⟩ := d.exists_exprTree hcell (by omega)
      rw [← hp]
      exact ht.exists_ofItems_eq _

/-- **Parsed expressions are trees** whose literals are rectangular. -/
theorem exists_tree_of_expression_gives {ts rest : List Token} {inMatrix : Bool} {e : Expr}
    (h : (expression finish inMatrix ts).Gives e rest) :
    ∃ t : ExprTree, t.Rectangular ∧ Expr.ofItems t.line t.postorder = e :=
  exists_tree_of_length_le ts.length (Nat.le_refl _) h

/-- A statement is an expression and what ends it. -/
theorem exists_expression_of_statement_gives {ts rest : List Token} {s : Statement}
    (h : (statement finish ts).Gives s rest) :
    ∃ e rest' prints, (expression finish false ts).Gives e rest' ∧
      s = toStatement e prints (positionOf finish ts).line := by
  unfold statement at h
  cases he : expression finish false ts with
  | error e stop => simp [he] at h
  | ok e rest' hlt =>
      refine ⟨e, rest', ?_⟩
      rw [he] at h
      cases rest' with
      | nil =>
          obtain ⟨rfl, -⟩ := Outcome.gives_ok.1 h
          exact ⟨true, by simp, rfl⟩
      | cons t rest' =>
          cases hk : t.kind with
          | newline =>
              simp only [hk, Outcome.gives_ok] at h
              obtain ⟨rfl, -⟩ := h
              exact ⟨true, by simp, rfl⟩
          | semicolon =>
              simp only [hk, Outcome.gives_ok] at h
              obtain ⟨rfl, -⟩ := h
              exact ⟨false, by simp, rfl⟩
          | _ => simp [hk] at h

/-- The expression of a parsed statement is a tree whose literals are rectangular. -/
theorem exists_tree_of_statement_gives {ts rest : List Token} {s : Statement}
    (h : (statement finish ts).Gives s rest) :
    ∃ t : ExprTree, t.Rectangular ∧ Expr.ofItems t.line t.postorder = s.expr := by
  obtain ⟨e, rest', prints, he, rfl⟩ := exists_expression_of_statement_gives h
  exact exists_tree_of_expression_gives he

/-! ### Literals -/

/-- From the bracket at the token `i` of a text on the parser of literals reads the literal `e` and stops
before the token `j`; the index behind all tokens is the end of the text. -/
def ReadsLiteral (source : Tokens) (i : Nat) (e : Expr) (j : Nat) : Prop :=
  j ≤ source.list.length ∧
    (matrix source.finish (source.list.drop i)).Gives e (source.list.drop j)

/-- **The parser of literals accepts the grammar, and every parsed literal is rectangular.**  At a bracket
it succeeds where a literal of the grammar stands and nowhere else, gives the cells of that literal in its
rows, and stops behind its closing bracket.  Every literal in a parsed statement, at any depth, is empty
or has rows of the same positive length. -/
theorem literal_grammar (source : Tokens) :
    (∀ (i : Nat) (t : Token), source.list[i]? = some t → t.kind = .openBracket → ∀ e j,
      ReadsLiteral source i e j ↔ j ≤ source.list.length ∧ ∃ rows,
        Literal source.finish (source.list.drop i) rows (source.list.drop j) ∧
          e = .matrix t.position.line rows) ∧
    ∀ (i : Nat) (s : Statement) (rest : List Token),
      (statement source.finish (source.list.drop i)).Gives s rest →
      ∀ line rows, (Expr.matrix line rows).Within s.expr → Rectangular rows := by
  constructor
  · intro i t ht hk e j
    obtain ⟨ts, hdrop⟩ : ∃ ts, source.list.drop i = t :: ts := by
      obtain ⟨hi, rfl⟩ := List.getElem?_eq_some_iff.1 ht
      exact ⟨_, List.drop_eq_getElem_cons hi⟩
    rw [ReadsLiteral, hdrop, matrix_gives_iff hk]
  · intro i s rest h line rows hw
    obtain ⟨t, ht, hs⟩ := exists_tree_of_statement_gives h
    rw [← hs] at hw
    obtain ⟨item, hitem, hw⟩ := hw.of_ofItems
    exact ht.of_within item hitem hw

end Parse

end MatrixCalc
