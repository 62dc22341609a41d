/-
**The grammar of matrix literals.**

```
Literal   -> '[' ']' | '[' Row (Separator Row)* newline* ']'
Row       -> Cell (Gap Cell)* [',']
Gap       -> ',' | nothing, before a number, a name or '['
Separator -> (';' | newline) newline*
Cell      -> an expression, as the parser of expressions reads it
```

All rows of a literal have the same number of cells.  Each nonterminal is a relation between the tokens
in front of which it is derived, what it holds, and the tokens behind it.

The parser of literals goes from one token to the next and keeps three things in mind: whether a comma
would have no cell before it, whether the row in hand started at a line end, and whether that row is
empty still.  It stands behind a cell, behind a comma, or where a row starts, and for each of the three
it is said here which rest of a literal it accepts.

Main definitions:

* `MatrixCalc.Grammar.Cell`, `MatrixCalc.Grammar.Row`, `MatrixCalc.Grammar.Literal` and the other
  nonterminals — the grammar;
* `MatrixCalc.Grammar.RowsEnd`, `MatrixCalc.Grammar.CellsEnd` — the rest of a literal behind a row and
  behind a cell;
* `MatrixCalc.Parse.Rows.Tidy`, `MatrixCalc.Parse.Rows.Accepts` — what the parser knows about the rows
  that it has read, and the rest of a literal that it accepts.

Main results:

* `MatrixCalc.Parse.accepts_of_rowsFrom_gives` — what the parser reads is the rest of a literal;
* `MatrixCalc.Parse.rowsFrom_gives_of_rowsEnd` — the parser reads every rest of a literal;
* `MatrixCalc.Parse.matrix_gives_iff` — **the parser of literals accepts the grammar**.
-/

import MatrixCalc.Proofs.Grammar.Expression

set_option autoImplicit false

namespace MatrixCalc

variable {finish : Position}

namespace Grammar

/-! ### The nonterminals -/

/-- A cell is what the parser of expressions reads. -/
def Cell (finish : Position) (ts : List Token) (e : Expr) (rest : List Token) : Prop :=
  (Parse.expression finish true ts).Gives e rest

/-- Any number of line ends. -/
inductive LineEnds : List Token → List Token → Prop where
  | none (ts : List Token) : LineEnds ts ts
  | more {t : Token} {ts rest : List Token} (kind_eq : t.kind = .newline) (h : LineEnds ts rest) :
      LineEnds (t :: ts) rest

/-- What stands between two cells of a row: a comma, or nothing before a token that starts an operand. -/
inductive Gap : List Token → List Token → Prop where
  | comma {t : Token} {ts : List Token} (kind_eq : t.kind = .comma) : Gap (t :: ts) ts
  | nothing {t : Token} {ts : List Token} (starts : t.kind.startsOperand = true) :
      Gap (t :: ts) (t :: ts)

/-- The comma that may stand behind the last cell of a row. -/
inductive FinalComma : List Token → List Token → Prop where
  | absent (ts : List Token) : FinalComma ts ts
  | present {t : Token} {ts : List Token} (kind_eq : t.kind = .comma) : FinalComma (t :: ts) ts

/-- Any number of cells, each behind a gap. -/
inductive MoreCells (finish : Position) : List Token → List Expr → List Token → Prop where
  | none (ts : List Token) : MoreCells finish ts [] ts
  | more {ts start mid rest : List Token} {e : Expr} {es : List Expr} (gap : Gap ts start)
      (cell : Cell finish start e mid) (h : MoreCells finish mid es rest) :
      MoreCells finish ts (e :: es) rest

/-- A row. -/
inductive Row (finish : Position) : List Token → List Expr → List Token → Prop where
  | mk {ts mid stop rest : List Token} {e : Expr} {es : List Expr} (cell : Cell finish ts e mid)
      (more : MoreCells finish mid es stop) (comma : FinalComma stop rest) :
      Row finish ts (e :: es) rest

theorem Row.ne_nil {ts rest : List Token} {row : List Expr} (h : Row finish ts row rest) : row ≠ [] := by
  cases h
  exact List.cons_ne_nil _ _

/-- What stands between two rows: a semicolon or a line end, and any number of line ends. -/
inductive Separator : List Token → List Token → Prop where
  | mk {t : Token} {ts rest : List Token} (separates : t.kind.isSeparator = true)
      (h : LineEnds ts rest) : Separator (t :: ts) rest

/-- Any number of rows, each behind a separator. -/
inductive MoreRows (finish : Position) : List Token → List (List Expr) → List Token → Prop where
  | none (ts : List Token) : MoreRows finish ts [] ts
  | more {ts start mid rest : List Token} {row : List Expr} {rows : List (List Expr)}
      (separator : Separator ts start) (first : Row finish start row mid)
      (h : MoreRows finish mid rows rest) : MoreRows finish ts (row :: rows) rest

/-- All rows have the same number of cells. -/
def SameLength (rows : List (List Expr)) : Prop := ∀ row ∈ rows, ∀ row' ∈ rows, row.length = row'.length

theorem SameLength.of_mem {rows rows' : List (List Expr)} (h : SameLength rows)
    (hm : ∀ row ∈ rows', row ∈ rows) : SameLength rows' :=
  fun row hrow row' hrow' => h row (hm row hrow) row' (hm row' hrow')

/-- A matrix literal and its rows. -/
inductive Literal (finish : Position) : List Token → List (List Expr) → List Token → Prop where
  /-- Two brackets. -/
  | empty {t u : Token} {rest : List Token} (opens : t.kind = .openBracket)
      (closes : u.kind = .closeBracket) : Literal finish (t :: u :: rest) [] rest
  /-- Rows of the same length between brackets, with line ends before the closing one. -/
  | rows {t u : Token} {ts mid trail rest : List Token} {row : List Expr} {rows : List (List Expr)}
      (opens : t.kind = .openBracket) (first : Row finish ts row mid)
      (more : MoreRows finish mid rows trail) (lineEnds : LineEnds trail (u :: rest))
      (closes : u.kind = .closeBracket) (same : SameLength (row :: rows)) :
      Literal finish (t :: ts) (row :: rows) rest

/-! ### The rest of a literal -/

/-- The rest of a literal behind a row: further rows, line ends and the closing bracket. -/
def RowsEnd (finish : Position) (ts : List Token) (rows : List (List Expr)) (rest : List Token) :
    Prop :=
  ∃ trail u, MoreRows finish ts rows trail ∧ LineEnds trail (u :: rest) ∧ u.kind = .closeBracket

/-- The rest of a literal behind a cell: the rest of its row, and what comes behind a row. -/
def CellsEnd (finish : Position) (ts : List Token) (es : List Expr) (rows : List (List Expr))
    (rest : List Token) : Prop :=
  ∃ stop mid, MoreCells finish ts es stop ∧ FinalComma stop mid ∧ RowsEnd finish mid rows rest

theorem RowsEnd.close {u : Token} {rest : List Token} (h : u.kind = .closeBracket) :
    RowsEnd finish (u :: rest) [] rest :=
  ⟨u :: rest, u, .none _, .none _, h⟩

theorem RowsEnd.row {ts start mid rest : List Token} {e : Expr} {es : List Expr}
    {rows : List (List Expr)} (hs : Separator ts start) (hc : Cell finish start e mid)
    (h : CellsEnd finish mid es rows rest) : RowsEnd finish ts ((e :: es) :: rows) rest := by
  obtain ⟨stop, behind, hm, hf, trail, u, hr, hl, hu⟩ := h
  exact ⟨trail, u, .more hs (.mk hc hm hf) hr, hl, hu⟩

theorem CellsEnd.ofRowsEnd {ts rest : List Token} {rows : List (List Expr)}
    (h : RowsEnd finish ts rows rest) : CellsEnd finish ts [] rows rest :=
  ⟨ts, ts, .none _, .absent _, h⟩

theorem CellsEnd.cell {ts start mid rest : List Token} {e : Expr} {es : List Expr}
    {rows : List (List Expr)} (hg : Gap ts start) (hc : Cell finish start e mid)
    (h : CellsEnd finish mid es rows rest) : CellsEnd finish ts (e :: es) rows rest := by
  obtain ⟨stop, behind, hm, hf, hr⟩ := h
  exact ⟨stop, behind, .more hg hc hm, hf, hr⟩

/-- A literal with rows: its bracket, its first cell, and the rest behind that. -/
theorem literal_iff {t : Token} {ts rest : List Token} {rows : List (List Expr)} :
    Literal finish (t :: ts) rows rest ↔ t.kind = .openBracket ∧
      ((∃ u, ts = u :: rest ∧ u.kind = .closeBracket ∧ rows = []) ∨
        ∃ e es more mid, Cell finish ts e mid ∧ CellsEnd finish mid es more rest ∧
          rows = (e :: es) :: more ∧ SameLength rows) := by
  constructor
  · intro h
    cases h with
    | empty opens closes => exact ⟨opens, .inl ⟨_, rfl, closes, rfl⟩⟩
    | rows opens first more lineEnds closes same =>
        cases first with
        | mk cell moreCells comma =>
            exact ⟨opens, .inr ⟨_, _, _, _, cell,
              ⟨_, _, moreCells, comma, _, _, more, lineEnds, closes⟩, rfl, same⟩⟩
  · rintro ⟨opens, ⟨u, rfl, closes, rfl⟩ | ⟨e, es, more, mid, hc, h, rfl, same⟩⟩
    · exact .empty opens closes
    · obtain ⟨stop, behind, hm, hf, trail, u, hr, hl, hu⟩ := h
      exact .rows opens (.mk hc hm hf) hr hl hu same

/-! ### Cells -/

/-- A cell starts with an operand or a parenthesis. -/
theorem Cell.starts {t : Token} {ts rest : List Token} {e : Expr} (h : Cell finish (t :: ts) e rest) :
    t.kind.startsOperand = true ∨ t.kind = .openParen := by
  rcases Parse.expressionFrom_cons_gives.1 h with ⟨hc, -⟩ | ⟨s, hs, -⟩ | ⟨hk, -⟩
  · -- nothing has been read, so the expression does not end here
    cases hc.1
  · cases hk : t.kind <;> simp_all [Parse.Pending.token?, Parse.Pending.start, Token.Kind.startsOperand]
  · simp [hk, Token.Kind.startsOperand]

/-- Behind a cell stands a token that may end one. -/
theorem Cell.endsBefore {ts rest : List Token} {e : Expr} (h : Cell finish ts e rest) :
    Parse.EndsBefore true rest := by
  obtain ⟨-, -, he, -⟩ := Parse.expression_gives_iff.1 h
  exact he

end Grammar

namespace Parse

open Grammar

/-! ### What the parser knows -/

namespace Rows

/-- The finished rows have the same length and are not empty, and where a row starts there is a finished
row, and a comma may not stand. -/
structure Tidy (r : Rows) : Prop where
  same : SameLength r.finished
  nonempty : ∀ row ∈ r.finished, row ≠ []
  pending : r.current = [] → r.finished ≠ [] ∧ r.commaPending = true

theorem tidy_start (e : Expr) : (start e).Tidy where
  same := by simp [start, SameLength]
  nonempty := by simp [start]
  pending := by simp [start]

theorem Tidy.pushCell {r : Rows} (h : r.Tidy) (e : Expr) : (r.pushCell e).Tidy where
  same := h.same
  nonempty := h.nonempty
  pending := by simp [Rows.pushCell]

theorem Tidy.pushComma {r : Rows} (h : r.Tidy) : r.pushComma.Tidy where
  same := h.same
  nonempty := h.nonempty
  pending hc := ⟨(h.pending hc).1, rfl⟩

theorem lengthError?_eq_none_iff {r : Rows} :
    r.lengthError? = none ↔ ∀ row ∈ r.finished.head?, row.length = r.current.length := by
  unfold lengthError?
  cases r.finished with
  | nil => simp
  | cons row rows => by_cases h : row.length = r.current.length <;> simp [h]

/-- A row that is as long as the one before it is as long as all of them. -/
theorem Tidy.same_cons {r : Rows} (h : r.Tidy) (hl : r.lengthError? = none) :
    SameLength (r.current.reverse :: r.finished) := by
  have hrow : ∀ row ∈ r.finished, row.length = r.current.length := by
    intro row hrow
    cases hf : r.finished with
    | nil => simp [hf] at hrow
    | cons first rows =>
        have hfirst := lengthError?_eq_none_iff.1 hl first (by simp [hf])
        exact (h.same row hrow first (by simp [hf])).trans hfirst
  have hlength : ∀ row ∈ r.current.reverse :: r.finished, row.length = r.current.length := by
    intro row hm
    rcases List.mem_cons.1 hm with rfl | hm
    · exact List.length_reverse
    · exact hrow row hm
  exact fun row hm row' hm' => (hlength row hm).trans (hlength row' hm').symm

/-- A row that is as long as the one before it has a cell. -/
theorem Tidy.current_ne_nil {r : Rows} (h : r.Tidy) (hl : r.lengthError? = none) : r.current ≠ [] := by
  intro hc
  obtain ⟨hf, -⟩ := h.pending hc
  obtain ⟨first, rows, hf⟩ := List.exists_cons_of_ne_nil hf
  have hlength := lengthError?_eq_none_iff.1 hl first (by simp [hf])
  rw [hc, List.length_nil, List.length_eq_zero_iff] at hlength
  exact h.nonempty first (by simp [hf]) hlength

theorem Tidy.nextRow {r : Rows} (h : r.Tidy) (hl : r.lengthError? = none) (newline : Bool) :
    (r.nextRow newline).Tidy where
  same := h.same_cons hl
  nonempty := by
    intro row hm
    rcases List.mem_cons.1 hm with rfl | hm
    · simpa using h.current_ne_nil hl
    · exact h.nonempty row hm
  pending _ := ⟨List.cons_ne_nil _ _, rfl⟩

theorem Tidy.token? {r r' : Rows} {t : Token} (h : r.Tidy) (ht : r.token? t = some r') : r'.Tidy := by
  unfold Rows.token? at ht
  split at ht
  · split at ht
    · cases ht
    · cases ht
      exact h.pushComma
  · split at ht
    · cases ht
      exact h
    · split at ht
      · next hl =>
          cases ht
          exact h.nextRow (by simpa using hl) true
      · cases ht
  · split at ht
    · next hl =>
        cases ht
        exact h.nextRow (by simpa using hl) false
    · cases ht
  · cases ht

/-! ### What the parser accepts -/

/-- The rest of a literal behind a cell of the row in hand. -/
def AcceptsBehindCell (finish : Position) (r : Rows) (ts : List Token) (all : List (List Expr))
    (rest : List Token) : Prop :=
  ∃ es rows, CellsEnd finish ts es rows rest ∧
    all = r.finished.reverse ++ (r.current.reverse ++ es) :: rows

/-- The rest of a literal behind a comma: the row ends, or a cell follows. -/
def AcceptsBehindComma (finish : Position) (r : Rows) (ts : List Token) (all : List (List Expr))
    (rest : List Token) : Prop :=
  (∃ rows, RowsEnd finish ts rows rest ∧ all = r.finished.reverse ++ r.current.reverse :: rows) ∨
    ∃ e es rows mid, Cell finish ts e mid ∧ CellsEnd finish mid es rows rest ∧
      all = r.finished.reverse ++ (r.current.reverse ++ e :: es) :: rows

/-- The rest of a literal where a row starts: behind any number of line ends a row, or the closing bracket
if the row starts at a line end. -/
def AcceptsRow (finish : Position) (r : Rows) (ts : List Token) (all : List (List Expr))
    (rest : List Token) : Prop :=
  ∃ start, LineEnds ts start ∧
    ((∃ e es rows mid, Cell finish start e mid ∧ CellsEnd finish mid es rows rest ∧
        all = r.finished.reverse ++ (e :: es) :: rows) ∨
      (r.afterNewline = true ∧ ∃ u, start = u :: rest ∧ u.kind = .closeBracket ∧
        all = r.finished.reverse))

/-- The rest of a literal that the parser accepts, wherever it stands. -/
def Accepts (finish : Position) (r : Rows) (ts : List Token) (all : List (List Expr))
    (rest : List Token) : Prop :=
  if r.current = [] then r.AcceptsRow finish ts all rest
  else if r.commaPending = true then r.AcceptsBehindComma finish ts all rest
  else r.AcceptsBehindCell finish ts all rest

theorem accepts_pushCell {r : Rows} {e : Expr} {ts rest : List Token} {all : List (List Expr)} :
    (r.pushCell e).Accepts finish ts all rest ↔ ∃ es rows, CellsEnd finish ts es rows rest ∧
      all = r.finished.reverse ++ (r.current.reverse ++ e :: es) :: rows := by
  simp [Accepts, AcceptsBehindCell, pushCell]

theorem accepts_pushComma {r : Rows} (hc : r.current ≠ []) {ts rest : List Token}
    {all : List (List Expr)} :
    r.pushComma.Accepts finish ts all rest ↔ r.AcceptsBehindComma finish ts all rest := by
  simp [Accepts, AcceptsBehindComma, pushComma, hc]

theorem accepts_nextRow {r : Rows} {newline : Bool} {ts rest : List Token} {all : List (List Expr)} :
    (r.nextRow newline).Accepts finish ts all rest ↔
      ∃ start, LineEnds ts start ∧
        ((∃ e es rows mid, Cell finish start e mid ∧ CellsEnd finish mid es rows rest ∧
          all = r.finished.reverse ++ r.current.reverse :: (e :: es) :: rows) ∨
        (newline = true ∧ ∃ u, start = u :: rest ∧ u.kind = .closeBracket ∧
          all = r.finished.reverse ++ [r.current.reverse])) := by
  simp [Accepts, AcceptsRow, nextRow]

/-- Where a row ends the parser accepts what comes behind a row. -/
theorem Accepts.ofRowsEnd {r : Rows} (hc : r.current ≠ []) {ts rest : List Token}
    {rows : List (List Expr)} (h : RowsEnd finish ts rows rest) :
    r.Accepts finish ts (r.finished.reverse ++ r.current.reverse :: rows) rest := by
  rw [Accepts, if_neg hc]
  split
  · exact .inl ⟨rows, h, rfl⟩
  · exact ⟨[], rows, .ofRowsEnd h, by simp⟩

/-- A separator behind a row, and what the parser accepts behind it, are the rest of a literal. -/
theorem Accepts.separator {r : Rows} (hc : r.current ≠ []) {newline : Bool} {t : Token}
    {ts rest : List Token} {all : List (List Expr)}
    (hs : t.kind.isSeparator = true) (hn : newline = true → t.kind = .newline)
    (h : (r.nextRow newline).Accepts finish ts all rest) : r.Accepts finish (t :: ts) all rest := by
  obtain ⟨start, hl, ⟨e, es, rows, mid, hcell, hend, rfl⟩ | ⟨hnewline, u, rfl, hu, rfl⟩⟩ :=
    accepts_nextRow.1 h
  · exact .ofRowsEnd hc (.row ⟨hs, hl⟩ hcell hend)
  · -- the line end belongs to those before the closing bracket
    exact .ofRowsEnd hc ⟨t :: ts, u, .none _, .more (hn hnewline) hl, hu⟩

/-- A literal that is closed ends here, and its rows have the same length. -/
theorem Accepts.close {r : Rows} (ht : r.Tidy) {u : Token} {rest : List Token}
    {all : List (List Expr)} (hu : u.kind = .closeBracket) (h : r.close = .ok all) :
    SameLength all ∧ r.Accepts finish (u :: rest) all rest := by
  unfold Rows.close at h
  split at h
  · next hn =>
      -- the line ends before the bracket start no row
      simp only [Bool.and_eq_true, List.isEmpty_iff] at hn
      cases h
      refine ⟨ht.same.of_mem (by simp), ?_⟩
      rw [Accepts, if_pos hn.2]
      exact ⟨u :: rest, .none _, .inr ⟨hn.1, u, rfl, hu, rfl⟩⟩
  · split at h
    · cases h
    · next hl =>
        cases h
        refine ⟨(ht.same_cons hl).of_mem (by simp [Rows.all, or_comm]), ?_⟩
        have hend : RowsEnd finish (u :: rest) [] rest := .close hu
        simpa [Rows.all] using Accepts.ofRowsEnd (ht.current_ne_nil hl) hend

/-- A token between cells or rows, and what the parser accepts behind it, are the rest of a literal. -/
theorem Accepts.token? {r r' : Rows} (ht : r.Tidy) {t : Token} {ts rest : List Token}
    {all : List (List Expr)} (hr : r.token? t = some r') (h : r'.Accepts finish ts all rest) :
    r.Accepts finish (t :: ts) all rest := by
  unfold Rows.token? at hr
  split at hr
  · next hk =>
      -- a comma stands behind a cell only
      split at hr
      · cases hr
      · next hp =>
          cases hr
          have hc : r.current ≠ [] := fun hc => hp (ht.pending hc).2
          rw [Accepts, if_neg hc, if_neg hp]
          rcases (accepts_pushComma hc).1 h with ⟨rows, hend, rfl⟩ | ⟨e, es, rows, mid, hcell, hend, rfl⟩
          · exact ⟨[], rows, ⟨t :: ts, ts, .none _, .present hk, hend⟩, by simp⟩
          · exact ⟨e :: es, rows, .cell (.comma hk) hcell hend, rfl⟩
  · next hk =>
      split at hr
      · next hc =>
          -- a line end where a row starts is passed over
          cases hr
          rw [List.isEmpty_iff] at hc
          rw [Accepts, if_pos hc] at h ⊢
          obtain ⟨start, hl, h⟩ := h
          exact ⟨start, .more hk hl, h⟩
      · next hc =>
          split at hr
          · cases hr
            exact .separator (by simpa using hc) (by simp [hk, Token.Kind.isSeparator]) (fun _ => hk) h
          · cases hr
  · next hk =>
      split at hr
      · next hl =>
          cases hr
          exact .separator (ht.current_ne_nil (by simpa using hl))
            (by simp [hk, Token.Kind.isSeparator]) (by simp) h
      · cases hr
  · cases hr

/-- A cell, and what the parser accepts behind it, are the rest of a literal. -/
theorem Accepts.cell {r : Rows} {t : Token} {ts mid rest : List Token} {e : Expr}
    {all : List (List Expr)} (hb : r.current ≠ [] → r.commaPending = false → Gap (t :: ts) (t :: ts))
    (hc : Cell finish (t :: ts) e mid) (h : (r.pushCell e).Accepts finish mid all rest) :
    r.Accepts finish (t :: ts) all rest := by
  obtain ⟨es, rows, hend, rfl⟩ := accepts_pushCell.1 h
  rw [Accepts]
  split
  · next hn => exact ⟨t :: ts, .none _, .inl ⟨e, es, rows, mid, hc, hend, by simp [hn]⟩⟩
  · next hn =>
      split
      · exact .inr ⟨e, es, rows, mid, hc, hend, rfl⟩
      · next hp => exact ⟨e :: es, rows, .cell (hb hn (by simpa using hp)) hc hend, rfl⟩

end Rows

/-- Whether the tokens `ts` may stand where the parser is: behind a cell those that may end one. -/
def Rows.MayMeet (r : Rows) (ts : List Token) : Prop :=
  r.current ≠ [] → r.commaPending = false → EndsBefore true ts

theorem Rows.MayMeet.token? {r r' : Rows} {t : Token} (h : r.token? t = some r') (ts : List Token) :
    r'.MayMeet ts := by
  intro hc hp
  unfold Rows.token? at h
  split at h
  · split at h
    · cases h
    · cases h
      cases hp
  · split at h
    · next hn =>
        cases h
        exact absurd (by simpa using hn) hc
    · split at h
      · cases h
        cases hp
      · cases h
  · split at h
    · cases h
      cases hp
    · cases h
  · cases h

/-- **What the parser reads is the rest of a literal**, by induction on a bound of the number of tokens. -/
theorem accepts_of_rowsFrom_gives {all : List (List Expr)} {rest : List Token} (k : Nat) :
    ∀ {ts : List Token} {r : Rows}, ts.length ≤ k → r.Tidy → r.MayMeet ts →
      (rowsFrom finish r ts).Gives all rest → SameLength all ∧ r.Accepts finish ts all rest := by
  induction k with
  | zero =>
      intro ts r hk _ _ h
      obtain rfl := List.eq_nil_of_length_eq_zero (Nat.le_zero.1 hk)
      exact (rowsFrom_nil_gives.1 h).elim
  | succ k ih =>
      intro ts r hk ht hm h
      cases ts with
      | nil => exact (rowsFrom_nil_gives.1 h).elim
      | cons t ts =>
          have hk' : ts.length ≤ k := Nat.le_of_succ_le_succ hk
          rcases rowsFrom_cons_gives.1 h with ⟨hu, hc, rfl⟩ | ⟨r', hr, h⟩ | ⟨-, e, mid, hc, h⟩
          · exact Rows.Accepts.close ht hu hc
          · obtain ⟨hs, ha⟩ := ih hk' (ht.token? hr) (.token? hr ts) h
            exact ⟨hs, ha.token? ht hr⟩
          · have hcell : Cell finish (t :: ts) e mid := hc
            have hlt : mid.length < (t :: ts).length := hc.length_lt
            obtain ⟨hs, ha⟩ := ih (by omega) (ht.pushCell e) (fun _ _ => hcell.endsBefore) h
            refine ⟨hs, ha.cell (fun hn hp => ?_) hcell⟩
            rcases hcell.starts with ho | ho
            · exact .nothing ho
            · -- a cell does not end before a parenthesis
              have hends := hm hn hp t rfl
              simp [ho, Token.Kind.endsExpression] at hends

/-! ### The parser reads the grammar -/

theorem rowsFrom_gives_of_cell {r : Rows} {ts mid rest : List Token} {e : Expr}
    {all : List (List Expr)} (hc : Cell finish ts e mid)
    (h : (rowsFrom finish (r.pushCell e) mid).Gives all rest) :
    (rowsFrom finish r ts).Gives all rest := by
  cases ts with
  | nil => exact absurd hc.length_lt (Nat.not_lt_zero _)
  | cons t ts =>
      have hk : t.kind.startsCell = true := by
        rcases hc.starts with hs | hs
        · cases hk : t.kind <;> simp_all [Token.Kind.startsOperand, Token.Kind.startsCell]
        · simp [hs, Token.Kind.startsCell]
      exact rowsFrom_cons_gives.2 (.inr (.inr ⟨hk, e, mid, hc, h⟩))

theorem rowsFrom_gives_of_token? {r r' : Rows} {t : Token} {ts rest : List Token}
    {all : List (List Expr)} (hr : r.token? t = some r') (h : (rowsFrom finish r' ts).Gives all rest) :
    (rowsFrom finish r (t :: ts)).Gives all rest :=
  rowsFrom_cons_gives.2 (.inr (.inl ⟨r', hr, h⟩))

/-- Where a row starts line ends are passed over. -/
theorem rowsFrom_gives_of_lineEnds {r : Rows} (hc : r.current = []) {ts start rest : List Token}
    {all : List (List Expr)} (hl : LineEnds ts start)
    (h : (rowsFrom finish r start).Gives all rest) : (rowsFrom finish r ts).Gives all rest := by
  induction hl with
  | none => exact h
  | more kind_eq _ ih => exact rowsFrom_gives_of_token? (by simp [Rows.token?, kind_eq, hc]) (ih h)

theorem Rows.token?_comma {r : Rows} (hp : r.commaPending = false) {t : Token}
    (hk : t.kind = .comma) : r.token? t = some r.pushComma := by
  simp [Rows.token?, hk, hp]

theorem Rows.token?_separator {r : Rows} (hc : r.current ≠ []) (hl : r.lengthError? = none) {t : Token}
    (hs : t.kind.isSeparator = true) : r.token? t = some (r.nextRow (decide (t.kind = .newline))) := by
  cases hk : t.kind <;> simp_all [Token.Kind.isSeparator, Rows.token?]

/-- Further cells go to the row in hand. -/
theorem rowsFrom_gives_of_moreCells {ts stop rest : List Token} {es : List Expr}
    {all : List (List Expr)} (hm : MoreCells finish ts es stop) :
    ∀ {r : Rows}, r.commaPending = false →
      (rowsFrom finish { r with current := es.reverse ++ r.current } stop).Gives all rest →
      (rowsFrom finish r ts).Gives all rest := by
  induction hm with
  | none => exact fun _ h => h
  | more gap cell _ ih =>
      intro r hp h
      cases gap with
      | comma kind_eq =>
          refine rowsFrom_gives_of_token? (Rows.token?_comma hp kind_eq) ?_
          refine rowsFrom_gives_of_cell cell (ih rfl ?_)
          simpa [Rows.pushCell, Rows.pushComma, hp] using h
      | nothing =>
          exact rowsFrom_gives_of_cell cell (ih rfl (by simpa [Rows.pushCell, hp] using h))

/-- Behind a row no comma need be in mind. -/
theorem rowsFrom_gives_of_finalComma {r : Rows} (hp : r.commaPending = false)
    {ts mid rest : List Token} {all : List (List Expr)} (hf : FinalComma ts mid)
    (h : ∀ pending, (rowsFrom finish { r with commaPending := pending } mid).Gives all rest) :
    (rowsFrom finish r ts).Gives all rest := by
  cases hf with
  | absent => simpa [← hp] using h r.commaPending
  | present kind_eq => exact rowsFrom_gives_of_token? (Rows.token?_comma hp kind_eq) (h true)

/-- A row is read where one starts; whether a comma stands behind it does not matter. -/
theorem rowsFrom_gives_of_row {r : Rows} (hc : r.current = []) {start mid rest : List Token}
    {row : List Expr} {all : List (List Expr)} (hr : Row finish start row mid)
    (h : ∀ pending, (rowsFrom finish ⟨r.finished, row.reverse, pending, r.afterNewline⟩ mid).Gives all
      rest) : (rowsFrom finish r start).Gives all rest := by
  obtain ⟨cell, moreCells, comma⟩ := hr
  refine rowsFrom_gives_of_cell cell (rowsFrom_gives_of_moreCells moreCells rfl ?_)
  refine rowsFrom_gives_of_finalComma rfl comma fun pending => ?_
  simpa [Rows.pushCell, hc] using h pending

/-- Rows of the same length as those before go on with one of that length. -/
theorem Rows.lengthError?_eq_none {r : Rows} {rows : List (List Expr)}
    (h : SameLength (r.finished.reverse ++ r.current.reverse :: rows)) : r.lengthError? = none := by
  refine Rows.lengthError?_eq_none_iff.2 fun row hrow => ?_
  have hm : row ∈ r.finished := List.mem_of_mem_head? hrow
  simpa using h row (by simp [hm]) r.current.reverse (by simp)

/-- **The parser reads every rest of a literal** behind a row, if all rows have the same length. -/
theorem rowsFrom_gives_of_rowsEnd {ts rest : List Token} {rows : List (List Expr)}
    (h : RowsEnd finish ts rows rest) (finished : List (List Expr)) (current : List Expr)
    (pending newline : Bool) (hc : current ≠ [])
    (hs : SameLength (finished.reverse ++ current.reverse :: rows)) :
    (rowsFrom finish ⟨finished, current, pending, newline⟩ ts).Gives
      (finished.reverse ++ current.reverse :: rows) rest := by
  obtain ⟨trail, u, hr, hl, hu⟩ := h
  induction hr generalizing finished current pending newline with
  | none ts =>
      have hlength := Rows.lengthError?_eq_none (r := ⟨finished, current, pending, newline⟩) hs
      cases hl with
      | none =>
          refine rowsFrom_cons_gives.2 (.inl ⟨hu, ?_, rfl⟩)
          simp [Rows.close, hc, hlength, Rows.all]
      | more kind_eq lineEnds =>
          -- the first line end starts a row, which the bracket drops
          refine rowsFrom_gives_of_token?
            (Rows.token?_separator hc hlength (by simp [kind_eq, Token.Kind.isSeparator])) ?_
          refine rowsFrom_gives_of_lineEnds rfl lineEnds ?_
          exact rowsFrom_cons_gives.2 (.inl ⟨hu, by simp [Rows.close, Rows.nextRow, kind_eq], rfl⟩)
  | @more _ _ _ _ row rows separator first _ ih =>
      have hlength := Rows.lengthError?_eq_none (r := ⟨finished, current, pending, newline⟩) hs
      obtain ⟨hsep, lineEnds⟩ := separator
      refine rowsFrom_gives_of_token? (Rows.token?_separator hc hlength hsep) ?_
      refine rowsFrom_gives_of_lineEnds rfl lineEnds (rowsFrom_gives_of_row rfl first ?_)
      intro pending'
      simpa [Rows.nextRow] using ih (current.reverse :: finished) row.reverse pending' _
        (by simpa using first.ne_nil) (by simpa using hs) hl

/-! ### The parser of literals -/

/-- **The parser of literals accepts the grammar**: it succeeds on literals and on nothing else, with
their rows, and leaves what stands behind the closing bracket. -/
theorem matrix_gives_iff {t : Token} (hk : t.kind = .openBracket) {ts rest : List Token} {e : Expr} :
    (matrix finish (t :: ts)).Gives e rest ↔
      ∃ rows, Literal finish (t :: ts) rows rest ∧ e = .matrix t.position.line rows := by
  rw [matrix_cons_gives]
  constructor
  · rintro ⟨rows, h, rfl⟩
    refine ⟨rows, literal_iff.2 ⟨hk, ?_⟩, rfl⟩
    cases ts with
    | nil => exact (matrixBody_nil_gives h).elim
    | cons u ts =>
        rcases matrixBody_cons_gives.1 h with ⟨hu, rfl, rfl⟩ | ⟨-, -, e, mid, hc, h⟩
        · exact .inl ⟨u, rfl, hu, rfl⟩
        · have hcell : Cell finish (u :: ts) e mid := hc
          obtain ⟨hs, ha⟩ := accepts_of_rowsFrom_gives mid.length (Nat.le_refl _) (Rows.tidy_start e)
            (fun _ _ => hcell.endsBefore) h
          obtain ⟨es, more, hend, rfl⟩ := Rows.accepts_pushCell (r := ⟨[], [], true, false⟩).1 ha
          exact .inr ⟨e, es, more, mid, hc, hend, by simp, by simpa using hs⟩
  · rintro ⟨rows, h, rfl⟩
    refine ⟨rows, ?_, rfl⟩
    obtain ⟨-, ⟨u, rfl, hu, rfl⟩ | ⟨e, es, more, mid, hc, hend, rfl, hs⟩⟩ := literal_iff.1 h
    · exact matrixBody_cons_gives.2 (.inl ⟨hu, rfl, rfl⟩)
    · -- the first cell is read by itself, the rest of its row like that of any other
      cases ts with
      | nil => exact absurd hc.length_lt (Nat.not_lt_zero _)
      | cons u ts =>
          obtain ⟨stop, behind, hm, hf, hr⟩ := hend
          refine matrixBody_cons_gives.2 (.inr ⟨?_, ?_, e, mid, hc, ?_⟩)
          · rintro hu
            simpa [hu, Token.Kind.startsOperand] using hc.starts
          · rintro hu
            simpa [hu, Token.Kind.startsOperand] using hc.starts
          · refine rowsFrom_gives_of_moreCells hm rfl (rowsFrom_gives_of_finalComma rfl hf ?_)
            intro pending
            simpa [Rows.start] using rowsFrom_gives_of_rowsEnd hr [] (e :: es).reverse pending false
              (by simp) (by simpa using hs)

end Parse

end MatrixCalc
