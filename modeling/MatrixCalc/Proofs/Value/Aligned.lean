/-
**A matrix is shown with its columns aligned, and nothing of it is lost.**

Each column is as wide as the longest text in it, and the cells are filled up to that with spaces in front, behind two
spaces that keep columns apart.  So all rows are shown on lines of one length, and the cells of a column end at the
same offset on each of them.  In the text of a number there is neither a space nor a line end.  So the lines of a
matrix can be told apart, and the words of a line are the texts of the cells of its row.

Main definitions:

* `MatrixCalc.Text.IsWord` — texts with neither a space nor a line end in them, but not empty;
* `MatrixCalc.Display.words` — the parts of a line between its spaces;
* `MatrixCalc.Display.Fits` — the texts of a row are not longer than the columns are wide;
* `MatrixCalc.Display.Shows` — a line of a given length has the texts of a row as its words, which end at given offsets.

Main results:

* `MatrixCalc.Decimal.isWord_display` — the text of a number is a word;
* `MatrixCalc.Display.fits_widths` — the columns are wide enough for all rows;
* `MatrixCalc.Display.Fits.shows` — the line of a row shows it;
* `MatrixCalc.Value.matrix_aligned` — **the lines of a matrix show its rows, with the columns aligned**.
-/

import MatrixCalc.Proofs.Evaluation.Compact
import MatrixCalc.Proofs.Token.Shapes

set_option autoImplicit false

namespace MatrixCalc

open Text Token Decimal

/-! ### The texts of numbers -/

/-- A text that is not empty, with neither a space nor a line end in it. -/
structure Text.IsWord (cs : List Char) : Prop where
  ne_nil : cs ≠ []
  space : ' ' ∉ cs
  lineFeed : '\n' ∉ cs

namespace Decimal

/-- A number that is written out has the characters of a number. -/
theorem isNumberChar_of_mem_layout {c : Nat} {p : Int} {d : Char} (hd : d ∈ layout [] c p) : isNumberChar d = true := by
  obtain ⟨n, hn, -⟩ := readsAs_layout (.inl rfl) c p
  obtain ⟨t, hscan, -, -⟩ := scan_of_readNumeral? (startsPlain_layout c p).plain hn
  have hchars := NumberText.chars_scan_append (layout [] c p)
  rw [hscan, List.append_nil] at hchars
  have hmem : d ∈ (NumberText.scan (layout [] c p)).1.chars := by
    rw [hscan, hchars]
    exact hd
  exact NumberText.isNumberChar_of_mem_scan hmem

/-- A text of characters that can stand in a number is a word. -/
theorem isWord_of_isNumberChar {cs : List Char} (hne : cs ≠ []) (h : ∀ c ∈ cs, isNumberChar c = true) : IsWord cs where
  ne_nil := hne
  space hspace := absurd (h ' ' hspace) (by decide)
  lineFeed hend := absurd (h '\n' hend) (by decide)

theorem isNumberChar_of_mem_signText {negative : Bool} {c : Char} (hc : c ∈ signText negative) :
    isNumberChar c = true := by
  cases negative with
  | false => cases hc
  | true =>
      obtain rfl := List.mem_singleton.1 hc
      rfl

/-- **The text of a number is a word.** -/
theorem isWord_display (x : Float) : IsWord (display.chars x) := by
  unfold Notation.chars
  cases form x with
  | nan => constructor <;> decide
  | infinite negative => cases negative <;> constructor <;> decide
  | finite negative m q =>
      cases m with
      | zero =>
          have hzero : IsWord ['0'] := by constructor <;> decide
          cases negative <;> exact hzero
      | succ m =>
          obtain ⟨d, hd, -⟩ := (startsPlain_layout (shortest (m + 1) q).1 (shortest (m + 1) q).2).digit
          refine isWord_of_isNumberChar (List.ne_nil_of_mem (List.mem_append_right _ (List.mem_of_mem_head? hd))) ?_
          intro c hc
          rcases List.mem_append.1 hc with hsign | hlayout
          · exact isNumberChar_of_mem_signText hsign
          · exact isNumberChar_of_mem_layout hlayout

end Decimal

namespace Display

/-! ### Lines and words -/

/-- The words of a line: the parts between its spaces that are not empty. -/
def words (line : List Char) : List (List Char) := (line.splitOn ' ').filter fun w => !w.isEmpty

@[simp] theorem words_nil : words [] = [] := rfl

theorem words_append (cs ds : List Char) : words (cs ++ ' ' :: ds) = words cs ++ words ds := by
  rw [words, List.splitOn, List.splitOnP_append_cons _ _ rfl, List.filter_append]
  rfl

@[simp] theorem words_space (cs : List Char) : words (' ' :: cs) = words cs := words_append [] cs

@[simp] theorem words_spaces (n : Nat) (cs : List Char) : words (List.replicate n ' ' ++ cs) = words cs := by
  induction n with
  | zero => rfl
  | succ n ih => rw [List.replicate_succ, List.cons_append, words_space, ih]

theorem words_of_isWord {cs : List Char} (h : IsWord cs) : words cs = [cs] := by
  have hsplit : cs.splitOn ' ' = [cs] :=
    List.splitOnP_eq_singleton fun c hc => by
      rw [beq_eq_false_iff_ne]
      rintro rfl
      exact h.space hc
  rw [words, hsplit, List.filter_cons_of_pos (by simpa using h.ne_nil), List.filter_nil]

theorem join_eq_intercalate (separator : List Char) (lines : List (List Char)) :
    join separator lines = separator.intercalate lines := by
  fun_induction join separator lines with
  | case1 => rfl
  | case2 cs => simp
  | case3 cs rest hne ih =>
      obtain ⟨ds, rest, rfl⟩ := List.exists_cons_of_ne_nil (fun h => hne h)
      rw [List.intercalate_cons_cons, ih, List.append_assoc]

/-- Lines that are joined can be told apart again. -/
theorem splitOn_join {lines : List (List Char)} (hne : lines ≠ []) (h : ∀ line ∈ lines, '\n' ∉ line) :
    (join ['\n'] lines).splitOn '\n' = lines := by
  rw [join_eq_intercalate, List.splitOn_intercalate '\n' h hne]

/-! ### Columns that are wide enough -/

/-- Each text of a row is at most as long as its column is wide. -/
def Fits (ws : List Nat) (row : List (List Char)) : Prop := List.Forall₂ (fun w cell => cell.length ≤ w) ws row

/-- The widths of the columns with a row more. -/
def widen (ws : List Nat) (row : List (List Char)) : List Nat := List.zipWith (fun w cell => max w cell.length) ws row

theorem length_widen {ws : List Nat} {row : List (List Char)} (h : row.length = ws.length) :
    (widen ws row).length = ws.length := by
  rw [widen, List.length_zipWith, h, Nat.min_self]

theorem fits_widen {ws : List Nat} {row : List (List Char)} (h : row.length = ws.length) : Fits (widen ws row) row := by
  induction ws generalizing row with
  | nil =>
      obtain rfl := List.length_eq_zero_iff.1 h
      exact .nil
  | cons w ws ih =>
      obtain ⟨cell, row, rfl⟩ := List.exists_cons_of_length_eq_add_one h
      exact .cons (Nat.le_max_right _ _) (ih (Nat.succ.inj h))

/-- What fits the columns also fits them with a row more. -/
theorem Fits.widen {ws : List Nat} {row row' : List (List Char)} (h : Fits ws row) (h' : row'.length = ws.length) :
    Fits (widen ws row') row := by
  induction h generalizing row' with
  | nil =>
      obtain rfl := List.length_eq_zero_iff.1 h'
      exact .nil
  | cons hcell _ ih =>
      obtain ⟨cell', row', rfl⟩ := List.exists_cons_of_length_eq_add_one h'
      exact .cons (hcell.trans (Nat.le_max_left _ _)) (ih (Nat.succ.inj h'))

theorem Fits.foldl_widen {rows : List (List (List Char))} {ws : List Nat} {row : List (List Char)} (h : Fits ws row)
    (hrows : ∀ row ∈ rows, row.length = ws.length) : Fits (rows.foldl Display.widen ws) row := by
  induction rows generalizing ws with
  | nil => exact h
  | cons row' rows ih =>
      obtain ⟨hrow', hrows⟩ := List.forall_mem_cons.1 hrows
      exact ih (h.widen hrow') fun row hrow => (hrows row hrow).trans (length_widen hrow').symm

theorem fits_foldl_widen {rows : List (List (List Char))} {ws : List Nat} (h : ∀ row ∈ rows, row.length = ws.length) :
    ∀ row ∈ rows, Fits (rows.foldl widen ws) row := by
  induction rows generalizing ws with
  | nil => exact fun _ hrow => absurd hrow List.not_mem_nil
  | cons row rows ih =>
      obtain ⟨hrow, hrows⟩ := List.forall_mem_cons.1 h
      have hwiden : ∀ row' ∈ rows, row'.length = (widen ws row).length := fun row' hrow' =>
        (hrows row' hrow').trans (length_widen hrow).symm
      -- widths never shrink, so the first row still fits when all others have been taken into account
      exact List.forall_mem_cons.2 ⟨(fits_widen hrow).foldl_widen hwiden, ih hwiden⟩

/-- **The columns are wide enough for all rows.** -/
theorem fits_widths {n : Nat} {rows : List (List (List Char))} (h : ∀ row ∈ rows, row.length = n) :
    ∀ row ∈ rows, Fits (widths n rows) row :=
  fits_foldl_widen fun row hrow => by rw [h row hrow, List.length_replicate]

/-! ### The line of a row -/

/-- The cells of a row, filled up in front, each behind two spaces. -/
def fields (ws : List Nat) (row : List (List Char)) : List Char :=
  (List.zipWith padLeft ws row).flatMap fun cs => [' ', ' '] ++ cs

theorem fields_cons (w : Nat) (ws : List Nat) (cell : List Char) (row : List (List Char)) :
    fields (w :: ws) (cell :: row) =
      ' ' :: ' ' :: List.replicate (w - cell.length) ' ' ++ cell ++ fields ws row := by
  simp [fields, padLeft]

theorem rowLine_eq_fields {ws : List Nat} {row : List (List Char)} (h : Fits ws row) (hne : row ≠ []) :
    rowLine ws row = fields ws row := by
  cases h with
  | nil => exact absurd rfl hne
  | cons hcell hrow =>
      rw [rowLine, List.zipWith_cons_cons, join_cons, fields, List.zipWith_cons_cons, List.flatMap_cons]
      rfl

/-- The line of a row goes on with a space, if it goes on. -/
theorem words_append_fields (cs : List Char) {ws : List Nat} {row : List (List Char)} (h : Fits ws row) :
    words (cs ++ fields ws row) = words cs ++ words (fields ws row) := by
  cases h with
  | nil => simp [fields]
  | cons hcell hrow => simp only [fields_cons, List.cons_append, words_append, words_space]

theorem words_fields {ws : List Nat} {row : List (List Char)} (h : Fits ws row) (hwords : ∀ cell ∈ row, IsWord cell) :
    words (fields ws row) = row := by
  induction h with
  | nil => rfl
  | @cons w cell ws row hcell hrow ih =>
      obtain ⟨hword, hwords⟩ := List.forall_mem_cons.1 hwords
      rw [fields_cons, words_append_fields _ hrow, ih hwords, List.cons_append, List.cons_append, words_space,
        words_space, words_spaces, words_of_isWord hword]
      rfl

/-- The length of a line with columns of the widths `ws`, each behind two spaces. -/
def lineLength (ws : List Nat) : Nat := (ws.map (· + 2)).sum

/-- The offset behind the column `c`. -/
def columnStop (ws : List Nat) (c : Nat) : Nat := lineLength (ws.take (c + 1))

theorem length_fields {ws : List Nat} {row : List (List Char)} (h : Fits ws row) :
    (fields ws row).length = lineLength ws := by
  induction h with
  | nil => rfl
  | @cons w cell ws row hcell hrow ih =>
      simp only [fields_cons, List.length_append, List.length_cons, List.length_replicate, ih, lineLength,
        List.map_cons, List.sum_cons]
      omega

/-- In the line, the text of the column `c` of the row ends at the offset `stop`: in front of it there are those of the
columns before it, and behind it those of the columns after it. -/
def EndsAt (line : List Char) (row : List (List Char)) (c stop : Nat) : Prop :=
  ∃ front cell back, row[c]? = some cell ∧ line = front ++ cell ++ back ∧ words front = row.take c ∧
    words back = row.drop (c + 1) ∧ (front ++ cell).length = stop

theorem fields_take_drop {ws : List Nat} {row : List (List Char)} (h : ws.length = row.length) (c : Nat) :
    fields ws row = fields (ws.take c) (row.take c) ++ fields (ws.drop c) (row.drop c) := by
  have htake : (ws.take c).length = (row.take c).length := by rw [List.length_take, List.length_take, h]
  rw [fields, fields, fields, ← List.flatMap_append, ← List.zipWith_append htake, List.take_append_drop,
    List.take_append_drop]

/-- **The text of a column ends where the columns up to it end.** -/
theorem Fits.endsAt {ws : List Nat} {row : List (List Char)} (h : Fits ws row) (hwords : ∀ cell ∈ row, IsWord cell)
    {c : Nat} (hc : c < row.length) : EndsAt (fields ws row) row c (columnStop ws c) := by
  have hc' : c < ws.length := h.length_eq.symm ▸ hc
  -- the line is cut around the column: what is before it fits by itself, and so does what is behind it
  have hbefore : Fits (ws.take c) (row.take c) := List.forall₂_take c h
  obtain ⟨hcell, hbehind⟩ : row[c].length ≤ ws[c] ∧ Fits (ws.drop (c + 1)) (row.drop (c + 1)) := by
    have hdrop := List.forall₂_drop c h
    rw [List.drop_eq_getElem_cons hc, List.drop_eq_getElem_cons hc'] at hdrop
    exact List.forall₂_cons.1 hdrop
  refine ⟨fields (ws.take c) (row.take c) ++ ' ' :: ' ' :: List.replicate (ws[c] - row[c].length) ' ', row[c],
    fields (ws.drop (c + 1)) (row.drop (c + 1)), List.getElem?_eq_getElem hc, ?_, ?_, ?_, ?_⟩
  · rw [fields_take_drop h.length_eq c, List.drop_eq_getElem_cons hc, List.drop_eq_getElem_cons hc', fields_cons]
    simp only [List.append_assoc, List.cons_append]
  · have hspaces := words_spaces (ws[c] - row[c].length) []
    rw [List.append_nil, words_nil] at hspaces
    rw [words_append, words_space, hspaces, List.append_nil]
    exact words_fields hbefore fun cell hcell => hwords cell (List.mem_of_mem_take hcell)
  · exact words_fields hbehind fun cell hcell => hwords cell (List.mem_of_mem_drop hcell)
  · rw [columnStop, ← List.take_append_getElem hc', lineLength, List.map_append, List.sum_append]
    simp only [List.length_append, List.length_cons, List.length_replicate, length_fields hbefore, lineLength,
      List.map_cons, List.map_nil, List.sum_cons, List.sum_nil]
    omega

/-- A line of the length `width` shows a row: its words are the texts of the row, and that of the column `c` ends at the
offset `stop c`. -/
structure Shows (width : Nat) (stop : Nat → Nat) (line : List Char) (row : List (List Char)) : Prop where
  length : line.length = width
  words : words line = row
  ends : ∀ c < row.length, EndsAt line row c (stop c)

/-- **The line of a row shows it**, if its columns are wide enough. -/
theorem Fits.shows {ws : List Nat} {row : List (List Char)} (h : Fits ws row) (hne : row ≠ [])
    (hwords : ∀ cell ∈ row, IsWord cell) : Shows (lineLength ws) (columnStop ws) (rowLine ws row) row := by
  rw [rowLine_eq_fields h hne]
  exact ⟨length_fields h, words_fields h hwords, fun c hc => h.endsAt hwords hc⟩

/-- No line ends within the line of a row. -/
theorem Fits.lineFeed_not_mem {ws : List Nat} {row : List (List Char)} (h : Fits ws row)
    (hwords : ∀ cell ∈ row, IsWord cell) : '\n' ∉ fields ws row := by
  induction h with
  | nil => exact List.not_mem_nil
  | cons hcell _ ih =>
      obtain ⟨hword, hwords⟩ := List.forall_mem_cons.1 hwords
      simp [fields_cons, hword.lineFeed, ih hwords]

/-! ### The lines of a matrix -/

/-- The texts of a row of a matrix with `n` columns. -/
structure IsRow (n : Nat) (row : List (List Char)) : Prop where
  length : row.length = n
  isWord : ∀ cell ∈ row, IsWord cell

theorem isRow_of_mem_cellTexts {a : DenseMatrix Float} {row : List (List Char)} (h : row ∈ cellTexts a.rows) :
    IsRow a.ncols row := by
  obtain ⟨xs, hxs, rfl⟩ := List.mem_map.1 h
  refine ⟨by rw [List.length_map, DenseMatrix.length_of_mem_rows hxs], fun cell hcell => ?_⟩
  obtain ⟨x, -, rfl⟩ := List.mem_map.1 hcell
  exact isWord_display x

/-- **Rows of texts are shown**, if there is a column at all, and no line ends within them. -/
theorem shows_of_isRow {n : Nat} {rows : List (List (List Char))} (h : ∀ row ∈ rows, IsRow n row) (hn : n ≠ 0) :
    ∀ row ∈ rows, Shows (lineLength (widths n rows)) (columnStop (widths n rows)) (rowLine (widths n rows) row) row ∧
      '\n' ∉ rowLine (widths n rows) row := by
  have hfits := fits_widths fun row hrow => (h row hrow).length
  intro row hrow
  have hne : row ≠ [] := by
    rintro rfl
    exact hn (h _ hrow).length.symm
  refine ⟨(hfits row hrow).shows hne (h row hrow).isWord, ?_⟩
  rw [rowLine_eq_fields (hfits row hrow) hne]
  exact (hfits row hrow).lineFeed_not_mem (h row hrow).isWord

/-- The lines of a matrix can be told apart. -/
theorem splitOn_matrixChars {a : DenseMatrix Float} (hempty : a.isEmpty = false)
    (h : ∀ row ∈ cellTexts a.rows, '\n' ∉ rowLine (widths a.ncols (cellTexts a.rows)) row) :
    (matrixChars a).splitOn '\n' = matrixLines a := by
  have hlines : ∀ line ∈ matrixLines a, '\n' ∉ line := by
    intro line hline
    rw [matrixLines, List.mem_append, List.mem_append] at hline
    rcases hline with (hopen | hrows) | hclose
    · obtain rfl := List.mem_singleton.1 hopen
      decide
    · obtain ⟨row, hrow, rfl⟩ := List.mem_map.1 hrows
      exact h row hrow
    · obtain rfl := List.mem_singleton.1 hclose
      decide
  have hne : matrixLines a ≠ [] := List.cons_ne_nil _ _
  rw [matrixChars, hempty, if_neg (by decide), splitOn_join hne hlines]

end Display

namespace Value

open Display

/-- **The lines of a matrix show its rows, with the columns aligned.**  A matrix with a cell is shown on as many lines
as it has rows, between brackets on lines of their own.  All rows are shown on lines of one length, the cells of a
column end at the same offset on each of them, and the words of a line are the texts of the cells of its row. -/
theorem matrix_aligned {a : DenseMatrix Float} (hcells : a.cells ≠ []) :
    ∃ (lines : List (List Char)) (width : Nat) (stop : Nat → Nat),
      (matrix a).text.toList.splitOn '\n' = [['[']] ++ lines ++ [[']']] ∧ lines.length = a.nrows ∧
        List.Forall₂ (fun line row => Shows width stop line (row.map display.chars)) lines a.rows := by
  have hsize : a.nrows * a.ncols ≠ 0 := by
    rw [← a.length_cells]
    exact fun hlength => hcells (List.length_eq_zero_iff.1 hlength)
  have hshows := shows_of_isRow (fun row hrow => isRow_of_mem_cellTexts hrow) (Nat.mul_ne_zero_iff.1 hsize).2
  generalize hws : widths a.ncols (cellTexts a.rows) = ws at hshows
  refine ⟨(cellTexts a.rows).map (rowLine ws), lineLength ws, columnStop ws, ?_, ?_, ?_⟩
  · rw [text, String.toList_ofList]
    subst hws
    exact splitOn_matrixChars (beq_eq_false_iff_ne.2 hsize) fun row hrow => (hshows row hrow).2
  · rw [List.length_map, cellTexts, List.length_map]
    exact Grid.length_toRows a.grid
  · rw [cellTexts, List.map_map, List.forall₂_map_left_iff, List.forall₂_same]
    exact fun row hrow => (hshows _ (List.mem_map_of_mem hrow)).1

/-- Whole numbers, one of two digits, and a number with a point. -/
def unevenNumbers : DenseMatrix Float := .ofVectors [#v[1, 2.5], #v[10, 4]]

theorem text_unevenNumbers : (matrix unevenNumbers).text = "[\n   1  2.5\n  10    4\n]" := by
  decide +kernel

theorem matrix_aligned_unevenNumbers :
    unevenNumbers.cells ≠ [] ∧ ∃ (lines : List (List Char)) (width : Nat) (stop : Nat → Nat),
      "[\n   1  2.5\n  10    4\n]".toList.splitOn '\n' = [['[']] ++ lines ++ [[']']] ∧ lines.length = 2 ∧
        List.Forall₂ (fun line row => Shows width stop line (row.map display.chars)) lines [[1, 2.5], [10, 4]] := by
  have hcells : unevenNumbers.cells ≠ [] := List.ne_nil_of_length_pos (by rw [DenseMatrix.length_cells]; decide)
  have hrows : unevenNumbers.rows = [[1, 2.5], [10, 4]] := by decide +kernel
  refine ⟨hcells, ?_⟩
  have haligned := matrix_aligned hcells
  rwa [text_unevenNumbers, hrows] at haligned

end Value

end MatrixCalc
