/-
**A value on a single line is read again.**

On a single line a number is written with its shortest decimal, and a matrix as a literal of such numbers.  Each number
is a single token there, and the marks between them are what the parser of literals expects.  So a line that holds such
a text is a statement, and the statement has the value that was written; but a matrix of a single cell is read as a
number.

Main definitions:

* `MatrixCalc.Value.IsWritable` — the values that are written as a number or as a literal of numbers;
* `MatrixCalc.Value.collapse` — a value with a matrix of a single cell taken for its cell.

Main results:

* `MatrixCalc.Display.spells_compactChars` — the tokens of a matrix on a single line;
* `MatrixCalc.Parse.line_leaf` — an operand is a line by itself;
* `MatrixCalc.Eval.literal_rows` — the rows of a matrix are evaluated to the matrix;
* `MatrixCalc.Value.line_compact` — **a value on a single line is read again**.
-/

import MatrixCalc.Proofs.Evaluation.Failures
import MatrixCalc.Proofs.Grammar.Numbers
import MatrixCalc.Proofs.Token.Numerals
import MatrixCalc.Value.Display

set_option autoImplicit false

namespace MatrixCalc

open Decimal Grammar

/-! ### The tokens of a matrix -/

namespace Display

/-- The first text, and each further one behind the separator. -/
theorem join_cons (separator cs : List Char) (rest : List (List Char)) :
    join separator (cs :: rest) = cs ++ rest.flatMap fun ds => separator ++ ds := by
  induction rest generalizing cs with
  | nil => simp [join]
  | cons ds rest ih => rw [join, ih, List.flatMap_cons, List.append_assoc, List.append_assoc]; exact nofun

variable {cs : List Char} {ks : List Token.Kind}

/-- Further cells of a row. -/
theorem spells_cells {xs : List Float} (hxs : ∀ x ∈ xs, IsUnsigned x) (h : SpellsBehind cs ks) :
    SpellsBehind ((xs.map display.chars).flatMap (fun ds => [','] ++ ds) ++ cs) (cellKinds (xs.map numeral) ++ ks) := by
  induction xs with
  | nil => exact h
  | cons x xs ih =>
      obtain ⟨hx, hxs⟩ := List.forall_mem_cons.1 hxs
      have hnumber := (ih hxs).number hx
      simp only [List.map_cons, List.flatMap_cons, cellKinds, List.append_assoc, List.cons_append, List.nil_append]
        at hnumber ⊢
      exact .mark .comma hnumber

/-- A row. -/
theorem spells_row {row : List Float} (hne : row ≠ []) (hrow : ∀ x ∈ row, IsUnsigned x) (h : SpellsBehind cs ks) :
    Spells (join [','] (row.map display.chars) ++ cs) (rowKinds (row.map numeral) ++ ks) := by
  obtain ⟨x, xs, rfl⟩ := List.exists_cons_of_ne_nil hne
  obtain ⟨hx, hxs⟩ := List.forall_mem_cons.1 hrow
  rw [List.map_cons, join_cons, List.append_assoc]
  exact (spells_cells hxs h).number hx

/-- Further rows. -/
theorem spells_rows {rows : List (List Float)} (hne : ∀ row ∈ rows, row ≠ [])
    (hrows : ∀ row ∈ rows, ∀ x ∈ row, IsUnsigned x) (h : SpellsBehind cs ks) :
    SpellsBehind (((cellTexts rows).map (join [','])).flatMap (fun ds => [';'] ++ ds) ++ cs)
      (moreKinds (rows.map (List.map numeral)) ++ ks) := by
  induction rows with
  | nil => exact h
  | cons row rows ih =>
      obtain ⟨hrow, hrows⟩ := List.forall_mem_cons.1 hrows
      obtain ⟨hfirst, hne⟩ := List.forall_mem_cons.1 hne
      have hspells := spells_row hfirst hrow (ih hne hrows)
      simp only [cellTexts, moreKinds, List.map_cons, List.flatMap_cons, List.append_assoc, List.cons_append,
        List.nil_append] at hspells ⊢
      exact .mark .semicolon hspells

/-- **A matrix on a single line is spelled as a literal of numbers.** -/
theorem spells_compactChars {a : DenseMatrix Float} (hne : ∀ row ∈ a.rows, row ≠ [])
    (hcells : ∀ row ∈ a.rows, ∀ x ∈ row, IsUnsigned x) :
    Spells (compactChars a) (literalKinds (a.rows.map (List.map numeral))) := by
  have hclose : SpellsBehind [']'] [.closeBracket] := .mark .closeBracket spellsBehind_nil.spells
  unfold compactChars
  generalize a.rows = rows at hne hcells
  cases rows with
  | nil => exact (SpellsBehind.mark .openBracket hclose.spells).spells
  | cons row rows =>
      obtain ⟨hrow, hrows⟩ := List.forall_mem_cons.1 hcells
      obtain ⟨hfirst, hne⟩ := List.forall_mem_cons.1 hne
      have hspells := spells_row hfirst hrow (spells_rows hne hrows hclose)
      rw [← List.append_assoc] at hspells
      rw [cellTexts, List.map_cons, List.map_cons, join_cons]
      exact (SpellsBehind.mark .openBracket hspells).spells

end Display

/-! ### Operands as lines -/

namespace Parse

/-- An operand starts with no separator. -/
theorem skipSeparators_leaf {finish : Position} (l : Leaf finish) : skipSeparators l.tokens = l.tokens := by
  cases l with
  | number t n hk | name t hk | literal t body e hk hr =>
      simp [Leaf.tokens, skipSeparators_cons, hk, Token.Kind.isSeparator]

/-- A line is a statement behind separators, if nothing is left behind it. -/
theorem line_of_gives {src : String} {ts : Tokens} (hlex : lex src = .ok ts) {us : List Token}
    (hskip : skipSeparators ts.list = us) {s : Statement} (h : (statement ts.finish us).Gives s []) :
    line src = .ok s := by
  subst hskip
  obtain ⟨hlt, hok⟩ := h.exists_eq_ok
  unfold line tokens
  rw [hlex]
  simp only [Except.mapError, bind, Except.bind, hok, trailingError?, skipSeparators_nil]

/-- **An operand is a line by itself.** -/
theorem line_leaf {src : String} {ts : Tokens} (hlex : lex src = .ok ts) (l : Leaf ts.finish)
    (hl : ts.list = l.tokens) : ∃ n, line src = .ok (toStatement l.item true n) := by
  have hexpression := expression_leaf l (endsBefore_nil false)
  rw [List.append_nil] at hexpression
  exact ⟨_, line_of_gives hlex (hl ▸ skipSeparators_leaf l) (statement_gives_iff.2 ⟨_, _, _, hexpression, rfl, rfl⟩)⟩

end Parse

/-! ### The value of a literal -/

/-- A statement whose expression leaves a value has the value, in every environment, and stores it in `ans`. -/
theorem Statement.evaluate_of_operand {s : Statement} {v : Value Float} {c : Context}
    (hv : Eval.operand c s.expr = pure (.value v)) (hstores : s.storesAns = true) (env : Env (Value Float)) :
    (s.expr.evaluate c env).1 = .ok v ∧ (s.evaluate c env).result = .ok ⟨some ansName, v⟩ := by
  constructor
  · simp only [Expr.evaluate, Eval.value, hv, pure_bind]
    rfl
  · simp only [evaluate, Eval.answer, hv, hstores, pure_bind, if_true]
    rfl

namespace Eval

variable {c : Context}

theorem operand_of_isNumber {e : Expr} {n : Numeral} (h : IsNumber e n) :
    operand c e = pure (.value (.scalar n.toFloat)) := by
  obtain ⟨line, rfl⟩ := h
  rw [operand]

theorem cells_of_areNumbers {es : List Expr} {ns : List Numeral} (h : List.Forall₂ IsNumber es ns) :
    cells c es = pure (ns.map Numeral.toFloat) := by
  induction h with
  | nil => rw [cells, List.map_nil]
  | cons he _ ih =>
      rw [cells, operand_of_isNumber he, ih]
      rfl

/-- A row that is as long as the first one passes. -/
theorem checkWidth_eq_pure {first : Option Nat} {n : Nat} (h : first.getD n = n) : checkWidth first n = pure () := by
  cases first with
  | none => rfl
  | some m => exact if_pos h.symm

theorem rows_of_areNumbers {rows : List (List Expr)} {values : List (List Numeral)}
    (h : List.Forall₂ (List.Forall₂ IsNumber) rows values) {n : Nat} (hvalues : ∀ row ∈ values, row.length = n)
    {first : Option Nat} (hfirst : first.getD n = n) :
    Eval.rows c first rows = pure (values.map (List.map Numeral.toFloat)) := by
  induction h generalizing first with
  | nil => rw [Eval.rows, List.map_nil]
  | @cons row ns rows values hrow _ ih =>
      obtain ⟨hlength, hvalues⟩ := List.forall_mem_cons.1 hvalues
      have hwidth : (ns.map Numeral.toFloat).length = n := (List.length_map _).trans hlength
      have hrest := ih hvalues (show (some (first.getD n)).getD n = n from hfirst)
      rw [Eval.rows, cells_of_areNumbers hrow, pure_bind, hwidth, checkWidth_eq_pure hfirst, pure_bind, hrest,
        pure_bind, List.map_cons]

/-- The rows of a matrix are evaluated to the matrix, and a single cell to its number. -/
theorem operand_matrix {rows : List (List Expr)} {values : List (List Numeral)}
    (h : List.Forall₂ (List.Forall₂ IsNumber) rows values) {n : Nat} (hvalues : ∀ row ∈ values, row.length = n)
    (line : Int) :
    operand c (.matrix line rows) = literal (values.map (List.map Numeral.toFloat)) >>= fun v => pure (.value v) := by
  rw [operand, rows_of_areNumbers h hvalues rfl, pure_bind]

end Eval

/-! ### The rows of a matrix -/

namespace DenseMatrix

variable {α : Type}

theorem length_of_mem_rows {a : DenseMatrix α} {row : List α} (h : row ∈ a.rows) : row.length = a.ncols :=
  Grid.length_of_mem_toRows h

theorem mapM_rowOfLength?_toList {n : Nat} (vs : List (Vector α n)) :
    (vs.map Vector.toList).mapM (rowOfLength? n) = .ok vs := by
  induction vs with
  | nil => rfl
  | cons v vs ih =>
      have hrow : rowOfLength? n v.toList = .ok v := by
        obtain ⟨row, rfl⟩ := v
        exact dif_pos (by simp)
      rw [List.map_cons, List.mapM_cons, hrow, ih]
      rfl

/-- A matrix is made of its rows. -/
theorem ofVectors_rows (a : DenseMatrix α) : ofVectors a.grid.rows.toList = a := by
  obtain ⟨m, n, ⟨⟨rows, rfl⟩⟩⟩ := a
  rfl

theorem rows_eq_map (a : DenseMatrix α) : a.rows = a.grid.rows.toList.map Vector.toList := by
  obtain ⟨m, n, ⟨⟨cells, rfl⟩⟩⟩ := a
  simp [rows, Grid.toRows]

/-- **A matrix with rows, or of no rows and columns, is made of its rows.** -/
theorem ofRows_rows {a : DenseMatrix α} (h : a.shape = ⟨0, 0⟩ ∨ 0 < a.nrows) : ofRows a.rows = .ok a := by
  cases hrows : a.rows with
  | nil =>
      have hlength : a.rows.length = a.nrows := Grid.length_toRows a.grid
      rw [hrows, List.length_nil] at hlength
      obtain ⟨m, n, g⟩ := a
      obtain ⟨rfl, rfl⟩ : m = 0 ∧ n = 0 := by
        rcases h with h | h
        · simpa [shape] using h
        · exact absurd hlength h.ne
      have hempty : g = .ofFn fun i => i.elim0 := Grid.ext_cell fun i => i.elim0
      rw [hempty]
      rfl
  | cons row rows =>
      have hwidth : row.length = a.ncols := length_of_mem_rows (hrows ▸ List.mem_cons_self)
      rw [ofRows, hwidth, ← hrows, rows_eq_map, mapM_rowOfLength?_toList]
      exact congrArg Except.ok (ofVectors_rows a)

end DenseMatrix

/-! ### Values on a single line -/

namespace Value

/-- A value is written as a number, or as a literal of numbers: its numbers are finite and have no sign, and a matrix
has neither rows nor columns or both. -/
def IsWritable : Value Float → Prop
  | scalar x => IsUnsigned x
  | matrix a => (a.shape = ⟨0, 0⟩ ∨ 0 < a.nrows ∧ 0 < a.ncols) ∧ ∀ x ∈ a.cells, IsUnsigned x

instance : DecidablePred IsWritable
  | scalar x => inferInstanceAs (Decidable (IsUnsigned x))
  | matrix a =>
      inferInstanceAs (Decidable ((a.shape = ⟨0, 0⟩ ∨ 0 < a.nrows ∧ 0 < a.ncols) ∧ ∀ x ∈ a.cells, IsUnsigned x))

/-- A value, but a matrix of a single cell is the number in it. -/
def collapse {α : Type} : Value α → Value α
  | scalar x => scalar x
  | matrix a => match a.rows with
    | [[x]] => scalar x
    | _ => matrix a

theorem collapse_of_rows_eq {a : DenseMatrix Float} {x : Float} (h : a.rows = [[x]]) :
    (matrix a).collapse = scalar x := by
  simp only [collapse, h]

theorem collapse_of_rows_ne {a : DenseMatrix Float} (h : ∀ x, a.rows ≠ [[x]]) : (matrix a).collapse = matrix a := by
  unfold collapse
  split
  · next heq => cases heq
  · next heq =>
      cases heq
      split
      · next x hrows => exact absurd hrows (h x)
      · rfl

/-- The rows of a matrix are evaluated to the matrix, or to its only cell. -/
theorem literal_rows {a : DenseMatrix Float} (h : DenseMatrix.ofRows a.rows = .ok a) :
    Eval.literal a.rows = pure (matrix a).collapse := by
  by_cases hone : ∃ x, a.rows = [[x]]
  · obtain ⟨x, hx⟩ := hone
    rw [collapse_of_rows_eq hx, hx]
    rfl
  · have hne : ∀ x, a.rows ≠ [[x]] := fun x hx => hone ⟨x, hx⟩
    rw [collapse_of_rows_ne hne, Eval.literal.eq_2 _ hne, h]
    rfl

/-- The cells of a matrix are those of its rows. -/
theorem forall_mem_cells {a : DenseMatrix Float} {P : Float → Prop} (h : ∀ x ∈ a.cells, P x) :
    ∀ row ∈ a.rows, ∀ x ∈ row, P x :=
  fun row hrow x hx => h x (List.mem_flatten.2 ⟨row, hrow, hx⟩)

/-- The tokens of a text. -/
theorem exists_lex {cs : List Char} {ks : List Token.Kind} (h : Spells cs ks) :
    ∃ ts, lex (String.ofList cs) = .ok ts ∧ ts.list.map Token.kind = ks := by
  obtain ⟨ts, hts, hkinds⟩ := h .start
  exact ⟨ts, by rw [lex, String.toList_ofList, hts.lexFrom_eq], hkinds⟩

/-- The numerals of numbers that are finite and have no sign are read as these. -/
theorem map_toFloat_numeral {rows : List (List Float)} (h : ∀ row ∈ rows, ∀ x ∈ row, IsUnsigned x) :
    (rows.map (List.map numeral)).map (List.map Numeral.toFloat) = rows := by
  have hrow : ∀ row ∈ rows, (row.map numeral).map Numeral.toFloat = row := by
    intro row hrow
    rw [List.map_map]
    exact (List.map_congr_left fun x hx => (h row hrow x hx).toFloat_numeral).trans (List.map_id row)
  rw [List.map_map]
  exact (List.map_congr_left hrow).trans (List.map_id rows)

/-- A number on a single line is a statement that leaves it. -/
theorem line_scalar {x : Float} (hx : IsUnsigned x) :
    ∃ s, Parse.line (scalar x).compact = .ok s ∧ s.storesAns = true ∧
      ∀ c, Eval.operand c s.expr = pure (.value (scalar x)) := by
  obtain ⟨ts, hlex, hkinds⟩ := exists_lex (spellsBehind_nil.number hx)
  rw [List.append_nil] at hlex
  obtain ⟨t, rest, hlist, ht, hrest⟩ := List.map_eq_cons_iff.1 hkinds
  obtain rfl := List.map_eq_nil_iff.1 hrest
  obtain ⟨n, hline⟩ := Parse.line_leaf hlex (.number t (numeral x) ht) hlist
  refine ⟨_, hline, rfl, fun c => ?_⟩
  rw [Parse.toStatement, Leaf.item, hx.toFloat_numeral, Eval.operand]

/-- A matrix on a single line is a statement that leaves it, or its only cell. -/
theorem line_matrix {a : DenseMatrix Float} (hshape : a.shape = ⟨0, 0⟩ ∨ 0 < a.nrows ∧ 0 < a.ncols)
    (hcells : ∀ row ∈ a.rows, ∀ x ∈ row, IsUnsigned x) :
    ∃ s, Parse.line (matrix a).compact = .ok s ∧ s.storesAns = true ∧
      ∀ c, Eval.operand c s.expr = pure (.value (matrix a).collapse) := by
  have hlength : ∀ row ∈ a.rows, row.length = a.ncols := fun row hrow => DenseMatrix.length_of_mem_rows hrow
  have hne : ∀ row ∈ a.rows, row ≠ [] := by
    intro row hrow
    rcases hshape with hshape | ⟨-, hcols⟩
    · have hrows : a.rows.length = a.nrows := Grid.length_toRows a.grid
      have hempty : a.nrows = 0 := congrArg Shape.rows hshape
      exact absurd (List.length_pos_of_mem hrow) (by omega)
    · exact List.ne_nil_of_length_pos (hlength row hrow ▸ hcols)
  have hlength' : ∀ row ∈ a.rows.map (List.map numeral), row.length = a.ncols := by simpa using hlength
  have hne' : ∀ row ∈ a.rows.map (List.map numeral), row ≠ [] := by simpa using hne
  obtain ⟨ts, hlex, hkinds⟩ := exists_lex (Display.spells_compactChars hne hcells)
  obtain ⟨exprs, hliteral, hnumbers⟩ := exists_literal ts.finish hne' hlength' hkinds
  obtain ⟨l, line, htokens, hitem⟩ := hliteral.exists_leaf
  obtain ⟨n, hline⟩ := Parse.line_leaf hlex l htokens.symm
  rw [hitem] at hline
  refine ⟨_, hline, rfl, fun c => ?_⟩
  have hrows : DenseMatrix.ofRows a.rows = .ok a := DenseMatrix.ofRows_rows (hshape.imp_right And.left)
  rw [Parse.toStatement, Eval.operand_matrix hnumbers hlength', map_toFloat_numeral hcells, literal_rows hrows,
    pure_bind]

/-- **A value on a single line is read again**: the line is a statement, and in every environment its value is what was
written, or the only cell of a matrix with one cell. -/
theorem line_compact {v : Value Float} (hv : v.IsWritable) :
    ∃ s, Parse.line v.compact = .ok s ∧ ∀ c env, (s.expr.evaluate c env).1 = .ok v.collapse ∧
      (s.evaluate c env).result = .ok ⟨some ansName, v.collapse⟩ := by
  have hline : ∃ s, Parse.line v.compact = .ok s ∧ s.storesAns = true ∧
      ∀ c, Eval.operand c s.expr = pure (.value v.collapse) := by
    cases v with
    | scalar x => exact line_scalar hv
    | matrix a => exact line_matrix hv.1 (forall_mem_cells hv.2)
  obtain ⟨s, hs, hstores, hoperand⟩ := hline
  exact ⟨s, hs, fun c env => Statement.evaluate_of_operand (hoperand c) hstores env⟩

/-- Numbers that are written as whole numbers, with a point, and with exponents. -/
def mixedNumbers : DenseMatrix Float := .ofVectors [#v[1, 0.1], #v[5e-324, 1e16]]

theorem compact_mixedNumbers : (matrix mixedNumbers).compact = "[1,0.1;5e-324,1e+16]" := by
  decide +kernel

theorem collapse_mixedNumbers : (matrix mixedNumbers).collapse = matrix mixedNumbers := by
  refine collapse_of_rows_ne fun x hx => ?_
  have hlength : mixedNumbers.nrows = 1 :=
    (Grid.length_toRows mixedNumbers.grid).symm.trans (congrArg List.length hx)
  exact absurd hlength (by decide)

theorem line_compact_mixedNumbers :
    (matrix mixedNumbers).IsWritable ∧ ∃ s, Parse.line "[1,0.1;5e-324,1e+16]" = .ok s ∧
      ∀ c env, (s.expr.evaluate c env).1 = .ok (matrix mixedNumbers) ∧
        (s.evaluate c env).result = .ok ⟨some ansName, matrix mixedNumbers⟩ := by
  have hwritable : (matrix mixedNumbers).IsWritable := by decide +kernel
  refine ⟨hwritable, ?_⟩
  have hline := line_compact hwritable
  rwa [compact_mixedNumbers, collapse_mixedNumbers] at hline

end Value

end MatrixCalc
