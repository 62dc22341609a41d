/-
**Literals of numbers.**

Rows of numbers between brackets, with commas between the cells and semicolons between the rows, are a matrix literal.
The parser needs only the kinds of the tokens for that, and the number that it reads for a cell is the number of its
token.

Main definitions:

* `MatrixCalc.Grammar.cellKinds`, `MatrixCalc.Grammar.rowKinds`, `MatrixCalc.Grammar.literalKinds` — the kinds of the
  tokens behind a cell, of a row, and of a literal;
* `MatrixCalc.Grammar.IsNumber` — an expression is the number that a numeral is read as.

Main results:

* `MatrixCalc.Parse.expression_leaf` — an operand is an expression by itself;
* `MatrixCalc.Grammar.exists_literal` — **rows of numbers of the same length are a literal**.
-/

import Mathlib.Data.List.Forall2
import MatrixCalc.Proofs.Grammar.Literal
import MatrixCalc.Proofs.Parse.Lines

set_option autoImplicit false

namespace MatrixCalc

open Decimal

variable {finish : Position}

/-! ### Operands as expressions -/

namespace Parse

open Grammar

theorem endsBefore_nil (inMatrix : Bool) : EndsBefore inMatrix [] := fun _ ht => by cases ht

/-- **An operand is an expression by itself.** -/
theorem expression_leaf (l : Leaf finish) {inMatrix : Bool} {rest : List Token} (hends : EndsBefore inMatrix rest) :
    (expression finish inMatrix (l.tokens ++ rest)).Gives l.item rest := by
  have hread : Pending.start.readAll? [Terminal.leaf l] = some (Pending.start.pushOperand l.item) := rfl
  have hcloses : (Pending.start.pushOperand l.item).Closes (positionOf finish (l.tokens ++ rest)).line l.item :=
    ⟨rfl, rfl, rfl⟩
  have hgives := expressionFrom_gives_of_readAll? (n := (l.tokens ++ rest).length) hread hcloses hends
  simpa [Terminal.tokens, expression] using hgives (by simp [Terminal.tokens]) (by intro h; cases h)

end Parse

namespace Grammar

open Parse

/-! ### The kinds of tokens -/

/-- The kinds of the tokens of further cells: a comma and a number for each. -/
def cellKinds (ns : List Numeral) : List Token.Kind := ns.flatMap fun n => [.comma, .number n]

/-- The kinds of the tokens of a row. -/
def rowKinds : List Numeral → List Token.Kind
  | [] => []
  | n :: ns => .number n :: cellKinds ns

/-- The kinds of the tokens of further rows: a semicolon and a row for each. -/
def moreKinds (rows : List (List Numeral)) : List Token.Kind := rows.flatMap fun row => .semicolon :: rowKinds row

/-- The kinds of the tokens of a literal. -/
def literalKinds : List (List Numeral) → List Token.Kind
  | [] => [.openBracket, .closeBracket]
  | row :: rows => .openBracket :: (rowKinds row ++ (moreKinds rows ++ [.closeBracket]))

/-! ### Cells and rows -/

/-- An expression is the number that a numeral is read as. -/
def IsNumber (e : Expr) (n : Numeral) : Prop := ∃ line, e = .number line n.toFloat

/-- A token of the first of these kinds ends a cell. -/
def EndsCell (ks : List Token.Kind) : Prop := ∀ k ∈ ks.head?, k.endsExpression true = true

theorem EndsCell.endsBefore {ks : List Token.Kind} (h : EndsCell ks) {ts : List Token}
    (hts : ts.map Token.kind = ks) : EndsBefore true ts := by
  intro t ht
  obtain ⟨ts, rfl⟩ := List.head?_eq_some_iff.1 ht
  subst hts
  exact h t.kind rfl

theorem EndsCell.cellKinds {back : List Token.Kind} (h : EndsCell back) (ns : List Numeral) :
    EndsCell (cellKinds ns ++ back) := by
  cases ns with
  | nil => exact h
  | cons n ns =>
      intro k hk
      obtain rfl := Option.some.inj hk
      rfl

theorem endsCell_moreKinds (rows : List (List Numeral)) : EndsCell (moreKinds rows ++ [.closeBracket]) := by
  intro k hk
  cases rows <;>
  · obtain rfl := Option.some.inj hk
    rfl

/-- A number is a cell. -/
theorem cell_number (finish : Position) {t : Token} {n : Numeral} (hk : t.kind = .number n) {rest : List Token}
    (hends : EndsBefore true rest) : Cell finish (t :: rest) (.number t.position.line n.toFloat) rest :=
  expression_leaf (.number t n hk) hends

/-- **Further cells that are numbers**, in front of tokens that end a cell: with the rest of a literal behind them,
they are the rest of a literal behind a cell. -/
theorem exists_cells (finish : Position) {back : List Token.Kind} (hback : EndsCell back) {ns : List Numeral}
    {ts : List Token} (hts : ts.map Token.kind = cellKinds ns ++ back) :
    ∃ es rest, rest.map Token.kind = back ∧ List.Forall₂ IsNumber es ns ∧
      ∀ rows, RowsEnd finish rest rows [] → CellsEnd finish ts es rows [] := by
  induction ns generalizing ts with
  | nil => exact ⟨[], ts, hts, .nil, fun rows => .ofRowsEnd⟩
  | cons n ns ih =>
      obtain ⟨t, ts, rfl, ht, hts⟩ := List.map_eq_cons_iff.1 hts
      obtain ⟨u, ts, rfl, hu, hts⟩ := List.map_eq_cons_iff.1 hts
      obtain ⟨es, rest, hrest, hes, hend⟩ := ih hts
      have hcell := cell_number finish hu ((hback.cellKinds ns).endsBefore hts)
      exact ⟨_, rest, hrest, .cons ⟨_, rfl⟩ hes, fun rows hrows => .cell (.comma ht) hcell (hend rows hrows)⟩

/-- **A row of numbers**, in front of tokens that end a cell. -/
theorem exists_row (finish : Position) {back : List Token.Kind} (hback : EndsCell back) {row : List Numeral}
    (hrow : row ≠ []) {ts : List Token} (hts : ts.map Token.kind = rowKinds row ++ back) :
    ∃ e es mid rest, Cell finish ts e mid ∧ rest.map Token.kind = back ∧ List.Forall₂ IsNumber (e :: es) row ∧
      ∀ rows, RowsEnd finish rest rows [] → CellsEnd finish mid es rows [] := by
  obtain ⟨n, ns, rfl⟩ := List.exists_cons_of_ne_nil hrow
  obtain ⟨t, ts, rfl, ht, hts⟩ := List.map_eq_cons_iff.1 hts
  obtain ⟨es, rest, hrest, hes, hend⟩ := exists_cells finish hback hts
  exact ⟨_, es, ts, rest, cell_number finish ht ((hback.cellKinds ns).endsBefore hts), hrest, .cons ⟨_, rfl⟩ hes, hend⟩

/-- **Further rows of numbers** and the closing bracket are the rest of a literal. -/
theorem exists_rows (finish : Position) {rows : List (List Numeral)} (hrows : ∀ row ∈ rows, row ≠ []) {ts : List Token}
    (hts : ts.map Token.kind = moreKinds rows ++ [.closeBracket]) :
    ∃ more, RowsEnd finish ts more [] ∧ List.Forall₂ (List.Forall₂ IsNumber) more rows := by
  induction rows generalizing ts with
  | nil =>
      obtain ⟨u, ts, rfl, hu, hts⟩ := List.map_eq_cons_iff.1 hts
      obtain rfl := List.map_eq_nil_iff.1 hts
      exact ⟨[], .close hu, .nil⟩
  | cons row rows ih =>
      have hts' : ts.map Token.kind = .semicolon :: (rowKinds row ++ (moreKinds rows ++ [.closeBracket])) := by
        simpa [moreKinds] using hts
      obtain ⟨t, ts, rfl, ht, hts⟩ := List.map_eq_cons_iff.1 hts'
      obtain ⟨e, es, mid, rest, hcell, hrest, hes, hend⟩ :=
        exists_row finish (endsCell_moreKinds rows) (hrows row List.mem_cons_self) hts
      obtain ⟨more, hmore, hvalues⟩ := ih (fun row hrow => hrows row (List.mem_cons_of_mem _ hrow)) hrest
      have hseparates : t.kind.isSeparator = true := by rw [ht]; rfl
      exact ⟨_, .row ⟨hseparates, .none _⟩ hcell (hend more hmore), .cons hes hvalues⟩

/-! ### Literals -/

/-- Expressions that are numbers are as many as these. -/
theorem length_eq_of_areNumbers {exprs : List (List Expr)} {rows : List (List Numeral)} {n : Nat}
    (h : List.Forall₂ (List.Forall₂ IsNumber) exprs rows) (hrows : ∀ row ∈ rows, row.length = n) :
    ∀ row ∈ exprs, row.length = n := by
  induction h with
  | nil => exact fun _ hrow => absurd hrow List.not_mem_nil
  | cons hrow _ ih =>
      obtain ⟨hlength, hrows⟩ := List.forall_mem_cons.1 hrows
      exact List.forall_mem_cons.2 ⟨hrow.length_eq.trans hlength, ih hrows⟩

/-- **Rows of numbers of the same length are a literal.** -/
theorem exists_literal (finish : Position) {rows : List (List Numeral)} {n : Nat} (hne : ∀ row ∈ rows, row ≠ [])
    (hrows : ∀ row ∈ rows, row.length = n) {ts : List Token} (hts : ts.map Token.kind = literalKinds rows) :
    ∃ exprs, Literal finish ts exprs [] ∧ List.Forall₂ (List.Forall₂ IsNumber) exprs rows := by
  cases rows with
  | nil =>
      obtain ⟨t, ts, rfl, ht, hts⟩ := List.map_eq_cons_iff.1 hts
      obtain ⟨u, ts, rfl, hu, hts⟩ := List.map_eq_cons_iff.1 hts
      obtain rfl := List.map_eq_nil_iff.1 hts
      exact ⟨[], .empty ht hu, .nil⟩
  | cons row rows =>
      obtain ⟨t, ts, rfl, ht, hts⟩ := List.map_eq_cons_iff.1 hts
      obtain ⟨hrow, hne⟩ := List.forall_mem_cons.1 hne
      obtain ⟨e, es, mid, rest, hcell, hrest, hes, hend⟩ :=
        exists_row finish (endsCell_moreKinds rows) hrow hts
      obtain ⟨more, hmore, hvalues⟩ := exists_rows finish hne hrest
      have hlength := length_eq_of_areNumbers (.cons hes hvalues) hrows
      have hsame : SameLength ((e :: es) :: more) := fun row hrow row' hrow' =>
        (hlength row hrow).trans (hlength row' hrow').symm
      exact ⟨_, literal_iff.2 ⟨ht, .inr ⟨e, es, more, mid, hcell, hend more hmore, rfl, hsame⟩⟩, .cons hes hvalues⟩

/-- A literal is an operand. -/
theorem Literal.exists_leaf {ts : List Token} {rows : List (List Expr)} (h : Literal finish ts rows []) :
    ∃ (l : Leaf finish) (line : Int), l.tokens = ts ∧ l.item = .matrix line rows := by
  cases ts with
  | nil => cases h
  | cons t ts =>
      have hopens := (literal_iff.1 h).1
      exact ⟨.literal t ts _ hopens ((matrix_gives_iff hopens).2 ⟨rows, h, rfl⟩), t.position.line, rfl, rfl⟩

end Grammar

end MatrixCalc
