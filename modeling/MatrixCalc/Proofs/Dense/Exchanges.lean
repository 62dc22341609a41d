/-
**Exchanges of rows.**

Two rows of a matrix are exchanged in all columns, in the columns in front of one, or in those from one on.  Either of
the last two done after the other one exchanges the rows, and each of the three undoes itself.  A request for rows or
columns that are not there is refused.

The cells of a matrix stand in one buffer, row after row, and there the request overwrites two stretches of the buffer
at once, each by what has been read from the other one.  If both are the same stretch, nothing changes.  What is
refused is refused before anything is written.

Main definitions:

* `MatrixCalc.Columns` — the columns that a request is about;
* `MatrixCalc.DenseMatrix.exchange` — the request;
* `MatrixCalc.Buffer.exchange` — two stretches of a buffer exchanged;
* `MatrixCalc.Buffer.exchangeRows` — the request, carried out in a buffer.

Main results:

* `MatrixCalc.Buffer.getElem?_exchange` — a buffer with two stretches exchanged;
* `MatrixCalc.Grid.toList_swapSpan` — exchanging cells of rows exchanges stretches of the buffer;
* `MatrixCalc.DenseMatrix.swapSpan_swapSpan` — exchanges in columns that follow each other;
* `MatrixCalc.DenseMatrix.exchange_cases` — **what a request for an exchange does**.
-/

import MatrixCalc.Proofs.Dense.Cells

set_option autoImplicit false

namespace MatrixCalc

/-! ### Buffers -/

namespace Buffer

variable {α : Type} {cells xs : List α} {i : Nat}

/-- The `count` cells of a buffer from the place `i` on. -/
def stretch (cells : List α) (i count : Nat) : List α := (cells.drop i).take count

/-- The buffer with the cells from the place `i` on overwritten. -/
def overwrite (cells : List α) (i : Nat) (xs : List α) : List α :=
  cells.take i ++ xs ++ cells.drop (i + xs.length)

/-- The buffer with two stretches of `count` cells exchanged.  Both are read before one is overwritten. -/
def exchange (cells : List α) (i j count : Nat) : List α :=
  overwrite (overwrite cells i (stretch cells j count)) j (stretch cells i count)

theorem length_stretch {count : Nat} (h : i + count ≤ cells.length) : (stretch cells i count).length = count := by
  rw [stretch, List.length_take, List.length_drop]
  omega

theorem length_overwrite (h : i + xs.length ≤ cells.length) : (overwrite cells i xs).length = cells.length := by
  simp only [overwrite, List.length_append, List.length_take, List.length_drop]
  omega

theorem getElem?_overwrite (h : i + xs.length ≤ cells.length) (k : Nat) :
    (overwrite cells i xs)[k]? = if i ≤ k ∧ k < i + xs.length then xs[k - i]? else cells[k]? := by
  have hi : (cells.take i).length = i := List.length_take_of_le (by omega)
  unfold overwrite
  by_cases hfront : k < i
  · rw [if_neg (by omega), List.append_assoc, List.getElem?_append_left (by omega), List.getElem?_take_of_lt hfront]
  rw [List.append_assoc, List.getElem?_append_right (by omega), hi]
  by_cases hback : k < i + xs.length
  · rw [if_pos (by omega), List.getElem?_append_left (by omega)]
  · rw [if_neg (by omega), List.getElem?_append_right (by omega), List.getElem?_drop]
    congr 1
    omega

theorem length_exchange {j count : Nat} (hi : i + count ≤ cells.length) (hj : j + count ≤ cells.length) :
    (exchange cells i j count).length = cells.length := by
  have hfirst : i + (stretch cells j count).length ≤ cells.length := by rwa [length_stretch hj]
  rw [exchange, length_overwrite, length_overwrite hfirst]
  rwa [length_overwrite hfirst, length_stretch hi]

theorem getElem?_stretch (cells : List α) {i count k : Nat} (h : k < count) :
    (stretch cells i count)[k]? = cells[i + k]? := by
  rw [stretch, List.getElem?_take_of_lt h, List.getElem?_drop]

/-- **A buffer with two stretches exchanged**, which may be the same one. -/
theorem getElem?_exchange {j count : Nat} (hi : i + count ≤ cells.length) (hj : j + count ≤ cells.length) (k : Nat) :
    (exchange cells i j count)[k]? =
      if j ≤ k ∧ k < j + count then cells[i + (k - j)]?
      else if i ≤ k ∧ k < i + count then cells[j + (k - i)]? else cells[k]? := by
  have hfirst : i + (stretch cells j count).length ≤ cells.length := by rwa [length_stretch hj]
  have hsecond : j + (stretch cells i count).length ≤ (overwrite cells i (stretch cells j count)).length := by
    rwa [length_overwrite hfirst, length_stretch hi]
  rw [exchange, getElem?_overwrite hsecond, getElem?_overwrite hfirst, length_stretch hi, length_stretch hj]
  split
  · rw [getElem?_stretch cells (by omega)]
  · split
    · rw [getElem?_stretch cells (by omega)]
    · rfl

end Buffer

/-! ### Stretches of rows -/

namespace Grid

variable {α : Type} {m n start stop : Nat}

/-- A place is in the stretch of a row that lies in some columns, if it is in this row and in one of these columns. -/
theorem mem_stretch_iff {a i j : Nat} (hj : j < n) (h : start ≤ stop) (hn : stop ≤ n) :
    (a * n + start ≤ i * n + j ∧ i * n + j < a * n + start + (stop - start)) ↔ i = a ∧ start ≤ j ∧ j < stop := by
  rcases Nat.lt_trichotomy i a with hlt | rfl | hlt
  · have hrow : i * n + n ≤ a * n := by
      rw [← Nat.succ_mul]
      exact Nat.mul_le_mul_right n hlt
    omega
  · omega
  · have hrow : a * n + n ≤ i * n := by
      rw [← Nat.succ_mul]
      exact Nat.mul_le_mul_right n hlt
    omega

/-- **Exchanging cells of two rows exchanges two stretches of the buffer.** -/
theorem toList_swapSpan (g : Grid α m n) (a b : Fin m) (h : start ≤ stop) (hn : stop ≤ n) :
    (g.swapSpan a b start stop).toList =
      Buffer.exchange g.toList (a * n + start) (b * n + start) (stop - start) := by
  have hfits (r : Fin m) : r * n + start + (stop - start) ≤ g.toList.length := by
    have hrow : r.val * n + n ≤ m * n := by
      rw [← Nat.succ_mul]
      exact Nat.mul_le_mul_right n r.isLt
    rw [length_toList]
    omega
  apply List.ext_getElem?
  intro k
  by_cases hk : k < m * n
  · obtain ⟨i, j, rfl⟩ : ∃ (i : Fin m) (j : Fin n), k = i * n + j := by
      have hn : 0 < n := Nat.pos_of_mul_pos_left (Nat.zero_lt_of_lt hk)
      exact ⟨⟨k / n, (Nat.div_lt_iff_lt_mul hn).2 hk⟩, ⟨k % n, Nat.mod_lt k hn⟩, (Nat.div_add_mod' k n).symm⟩
    rw [Buffer.getElem?_exchange (hfits a) (hfits b)]
    simp only [mem_stretch_iff j.isLt h hn, getElem?_toList, cell_swapSpan, Fin.val_inj]
    by_cases hspan : start ≤ j ∧ j < stop
    · have hplace (r s : Fin m) : r * n + start + (s * n + j - (s * n + start)) = r * n + j := by omega
      by_cases hb : i = b
      · rw [if_pos hspan, if_pos ⟨hb, hspan⟩, hb, hplace, getElem?_toList, swapIndex_right]
      by_cases ha : i = a
      · rw [if_pos hspan, if_neg (fun hc => hb hc.1), if_pos ⟨ha, hspan⟩, ha, hplace, getElem?_toList, swapIndex_left]
      · rw [if_pos hspan, if_neg (fun hc => hb hc.1), if_neg (fun hc => ha hc.1), swapIndex_of_ne ha hb]
    · rw [if_neg hspan, if_neg (fun hc => hspan hc.2), if_neg (fun hc => hspan hc.2)]
  · have hlength := Buffer.length_exchange (hfits a) (hfits b)
    rw [length_toList] at hlength
    rw [List.getElem?_eq_none (by rw [length_toList]; omega), List.getElem?_eq_none (by omega)]

/-- Exchanging cells twice changes nothing. -/
@[simp] theorem swapSpan_swapSpan_self (g : Grid α m n) (a b : Fin m) (start stop : Nat) :
    (g.swapSpan a b start stop).swapSpan a b start stop = g := by
  refine ext_cell fun i j => ?_
  rw [cell_swapSpan, cell_swapSpan]
  split
  · rw [swapIndex_swapIndex]
  · rfl

/-- Exchanges of the same rows may be done in any order. -/
theorem swapSpan_comm (g : Grid α m n) (a b : Fin m) (start stop start' stop' : Nat) :
    (g.swapSpan a b start stop).swapSpan a b start' stop' = (g.swapSpan a b start' stop').swapSpan a b start stop := by
  refine ext_cell fun i j => ?_
  simp only [cell_swapSpan]
  by_cases h : start ≤ j ∧ j < stop
  · simp only [if_pos h, apply_ite (swapIndex a b)]
  · simp only [if_neg h]

/-- **Exchanges in columns that follow each other** are one exchange. -/
theorem swapSpan_swapSpan (g : Grid α m n) (a b : Fin m) {middle : Nat} (h : start ≤ middle) (h' : middle ≤ stop) :
    (g.swapSpan a b start middle).swapSpan a b middle stop = g.swapSpan a b start stop := by
  refine ext_cell fun i j => ?_
  simp only [cell_swapSpan]
  by_cases hj : j < middle
  · have hspan : (start ≤ j ∧ j < middle) ↔ (start ≤ j ∧ j < stop) := by omega
    have hbehind : ¬ (middle ≤ j ∧ j < stop) := by omega
    rw [if_neg hbehind, if_congr hspan rfl rfl]
  · have hspan : (middle ≤ j ∧ j < stop) ↔ (start ≤ j ∧ j < stop) := by omega
    have hfront : ¬ (start ≤ j ∧ j < middle) := by omega
    rw [if_neg hfront, if_congr hspan rfl rfl]

/-- Rows are exchanged if their cells are exchanged in all columns. -/
theorem swapRows_eq_swapSpan (g : Grid α m n) (a b : Fin m) : g.swapRows a b = g.swapSpan a b 0 n := by
  refine ext_cell fun i j => ?_
  rw [cell_swapRows, cell_swapSpan, if_pos ⟨Nat.zero_le _, j.isLt⟩]

end Grid

/-! ### Requests -/

/-- A matrix of this shape has the rows `r` and `s`. -/
def Shape.HasRows (shape : Shape) (r s : Int) : Prop := 0 ≤ r ∧ r < shape.rows ∧ 0 ≤ s ∧ s < shape.rows

instance (shape : Shape) (r s : Int) : Decidable (shape.HasRows r s) :=
  inferInstanceAs (Decidable (0 ≤ r ∧ r < shape.rows ∧ 0 ≤ s ∧ s < shape.rows))

/-- The columns that a request for an exchange is about. -/
inductive Columns where
  | all
  /-- The columns in front of one. -/
  | before (stop : Int)
  /-- A column and those behind it. -/
  | startingAt (start : Int)

namespace Columns

/-- The first of the columns. -/
def start : Columns → Int
  | startingAt c => c
  | _ => 0

/-- The column behind the last of them, where there are `n` columns in all. -/
def stop (n : Nat) : Columns → Int
  | before c => c
  | _ => n

/-- Their bounds are those of columns, where there are `n`. -/
def Fits (n : Nat) (cs : Columns) : Prop := 0 ≤ cs.start ∧ cs.start ≤ cs.stop n ∧ cs.stop n ≤ n

/-- A column is one of them. -/
def Has (n : Nat) (cs : Columns) (j : Int) : Prop := cs.start ≤ j ∧ j < cs.stop n

instance (n : Nat) (cs : Columns) : Decidable (cs.Fits n) :=
  inferInstanceAs (Decidable (0 ≤ cs.start ∧ cs.start ≤ cs.stop n ∧ cs.stop n ≤ n))

instance (n : Nat) (cs : Columns) (j : Int) : Decidable (cs.Has n j) :=
  inferInstanceAs (Decidable (cs.start ≤ j ∧ j < cs.stop n))

end Columns

/-- Carries out a request for an exchange of the rows `r` and `s`, in a buffer that has the cells of a matrix of some
shape. -/
def Buffer.exchangeRows {α : Type} (shape : Shape) (r s : Int) (cs : Columns) :
    ExceptT MatrixError (StateM (List α)) Unit := do
  unless shape.HasRows r s do
    throw .noRow
  unless cs.Fits shape.cols do
    throw (.noSpan cs.start (cs.stop shape.cols))
  let place (row : Int) : Nat := row.toNat * shape.cols + cs.start.toNat
  modify fun cells => exchange cells (place r) (place s) (cs.stop shape.cols - cs.start).toNat

/-- What becomes of the buffer. -/
theorem Buffer.run_exchangeRows {α : Type} (shape : Shape) (r s : Int) (cs : Columns) (cells : List α) :
    (exchangeRows shape r s cs).run.run cells =
      if shape.HasRows r s then
        if cs.Fits shape.cols then
          (.ok (), exchange cells (r.toNat * shape.cols + cs.start.toNat) (s.toNat * shape.cols + cs.start.toNat)
            (cs.stop shape.cols - cs.start).toNat)
        else (.error (.noSpan cs.start (cs.stop shape.cols)), cells)
      else (.error .noRow, cells) := by
  unfold exchangeRows
  by_cases hrows : shape.HasRows r s
  · rw [if_pos hrows, if_pos hrows]
    by_cases hfits : cs.Fits shape.cols
    · rw [if_pos hfits, if_pos hfits]
      rfl
    · rw [if_neg hfits, if_neg hfits]
      rfl
  · rw [if_neg hrows, if_neg hrows]
    rfl

namespace DenseMatrix

variable {α : Type} {n : Nat}

theorem cols_shape (a : DenseMatrix α) : a.shape.cols = a.ncols := rfl

/-- A request for an exchange of the rows `r` and `s`. -/
def exchange (a : DenseMatrix α) (r s : Int) : Columns → Except MatrixError (DenseMatrix α)
  | .all => a.swapRows r s
  | .before c => a.swapSpan r s 0 c
  | .startingAt c => a.swapSpan r s c a.ncols

/-- The row that is at `i` when `r` and `s` have been exchanged. -/
def swapped (r s i : Int) : Int := if i = r then s else if i = s then r else i

@[simp] theorem index?_natCast (i : Fin n) : index? n (i : Int) = some i := by
  simp [index?]

theorem index?_of_not {i : Int} (h : ¬ (0 ≤ i ∧ i < n)) : index? n i = none :=
  dif_neg fun hc => h ⟨hc.1, by omega⟩

theorem exists_eq_natCast {i : Int} (h : 0 ≤ i ∧ i < n) : ∃ k : Fin n, i = k :=
  ⟨⟨i.toNat, by omega⟩, (Int.toNat_of_nonneg h.1).symm⟩

/-- Rows that are there, as indices. -/
theorem exists_rows {a : DenseMatrix α} {r s : Int} (h : a.shape.HasRows r s) : ∃ p q : Fin a.nrows, r = p ∧ s = q := by
  obtain ⟨p, hp⟩ := exists_eq_natCast ⟨h.1, h.2.1⟩
  obtain ⟨q, hq⟩ := exists_eq_natCast h.2.2
  exact ⟨p, q, hp, hq⟩

theorem locateRows_natCast (a : DenseMatrix α) (p q : Fin a.nrows) : a.locateRows p q = .ok (p, q) := by
  simp [locateRows]

theorem locateRows_of_not {a : DenseMatrix α} {r s : Int} (h : ¬ a.shape.HasRows r s) :
    a.locateRows r s = .error .noRow := by
  unfold locateRows
  by_cases hr : 0 ≤ r ∧ r < a.nrows
  · have hs : ¬ (0 ≤ s ∧ s < a.nrows) := fun hs => h ⟨hr.1, hr.2, hs⟩
    rw [index?_of_not hs]
    cases index? a.nrows r <;> rfl
  · rw [index?_of_not hr]

/-- A request that can be met. -/
theorem swapSpan_natCast (a : DenseMatrix α) (p q : Fin a.nrows) {start stop : Nat} (h : start ≤ stop)
    (hn : stop ≤ a.ncols) : a.swapSpan p q start stop = .ok { a with grid := a.grid.swapSpan p q start stop } := by
  have hspan : (0 : Int) ≤ start ∧ (start : Int) ≤ stop ∧ (stop : Int) ≤ a.ncols := by omega
  rw [swapSpan, locateRows_natCast]
  exact if_pos hspan

/-- A request that cannot be met. -/
theorem swapSpan_of_not {a : DenseMatrix α} {r s start stop : Int}
    (h : ¬ (a.shape.HasRows r s ∧ 0 ≤ start ∧ start ≤ stop ∧ stop ≤ a.ncols)) :
    a.swapSpan r s start stop = .error (if a.shape.HasRows r s then .noSpan start stop else .noRow) := by
  by_cases hrows : a.shape.HasRows r s
  · obtain ⟨p, q, rfl, rfl⟩ := exists_rows hrows
    rw [swapSpan, locateRows_natCast, if_pos hrows]
    exact if_neg fun hspan => h ⟨hrows, hspan⟩
  · rw [swapSpan, locateRows_of_not hrows, if_neg hrows]
    rfl

/-- Each request is one for an exchange in a span of columns. -/
theorem exchange_eq_swapSpan (a : DenseMatrix α) (r s : Int) (cs : Columns) :
    a.exchange r s cs = a.swapSpan r s cs.start (cs.stop a.ncols) := by
  cases cs with
  | all =>
      by_cases hrows : a.shape.HasRows r s
      · obtain ⟨p, q, rfl, rfl⟩ := exists_rows hrows
        have hrequest : a.exchange p q .all = .ok { a with grid := a.grid.swapRows p q } := by
          rw [exchange, swapRows, locateRows_natCast]
          rfl
        rw [hrequest, Grid.swapRows_eq_swapSpan]
        exact (a.swapSpan_natCast p q (Nat.zero_le _) (Nat.le_refl _)).symm
      · rw [swapSpan_of_not fun h => hrows h.1, if_neg hrows, exchange, swapRows, locateRows_of_not hrows]
        rfl
  | before c => rfl
  | startingAt c => rfl

/-- A request that can be met, by the bounds of its columns. -/
theorem exchange_natCast (a : DenseMatrix α) (p q : Fin a.nrows) {cs : Columns} {start stop : Nat}
    (hstart : cs.start = start) (hstop : cs.stop a.ncols = stop) (h : start ≤ stop) (hn : stop ≤ a.ncols) :
    a.exchange p q cs = .ok { a with grid := a.grid.swapSpan p q start stop } := by
  rw [exchange_eq_swapSpan, hstart, hstop, swapSpan_natCast a p q h hn]

/-- The rows and the bounds of columns that are there. -/
theorem exists_bounds {a : DenseMatrix α} {r s : Int} {cs : Columns} (h : a.shape.HasRows r s ∧ cs.Fits a.ncols) :
    ∃ (p q : Fin a.nrows) (start stop : Nat), r = p ∧ s = q ∧ cs.start = start ∧ cs.stop a.ncols = stop ∧
      start ≤ stop ∧ stop ≤ a.ncols := by
  obtain ⟨p, q, rfl, rfl⟩ := exists_rows h.1
  obtain ⟨hnonneg, hle, hn⟩ := h.2
  obtain ⟨start, hstart⟩ := Int.eq_ofNat_of_zero_le hnonneg
  obtain ⟨stop, hstop⟩ := Int.eq_ofNat_of_zero_le (Int.le_trans hnonneg hle)
  exact ⟨p, q, start, stop, rfl, rfl, hstart, hstop, by omega, by omega⟩

/-- A request that cannot be met. -/
theorem exchange_of_not {a : DenseMatrix α} {r s : Int} {cs : Columns} (h : ¬ (a.shape.HasRows r s ∧ cs.Fits a.ncols)) :
    a.exchange r s cs =
      .error (if a.shape.HasRows r s then .noSpan cs.start (cs.stop a.ncols) else .noRow) := by
  rw [exchange_eq_swapSpan]
  exact swapSpan_of_not h

/-! ### What is read afterwards -/

theorem swapped_natCast (p q i : Fin n) : swapped p q i = (Grid.swapIndex p q i : Int) := by
  simp only [swapped, Grid.swapIndex, Int.ofNat_inj, Fin.val_inj]
  split
  · rfl
  · split <;> rfl

theorem get_natCast (a : DenseMatrix α) (i : Fin a.nrows) (j : Fin a.ncols) :
    a.get (.cell i j) = .ok (a.grid.cell i j) := by
  simp [get, locate, Except.map]

theorem get_of_not {a : DenseMatrix α} {i j : Int} (h : ¬ ((0 ≤ i ∧ i < a.nrows) ∧ 0 ≤ j ∧ j < a.ncols)) :
    a.get (.cell i j) = .error (.noCell i j a.shape) := by
  simp only [get, locate]
  by_cases hi : 0 ≤ i ∧ i < a.nrows
  · rw [index?_of_not fun hj => h ⟨hi, hj⟩]
    cases index? a.nrows i <;> rfl
  · rw [index?_of_not hi]
    rfl

/-- **The cells that are read after an exchange**: in the span of columns those of the other row, else the same. -/
theorem get_swapSpan (a : DenseMatrix α) (p q : Fin a.nrows) {start stop : Nat} (hn : stop ≤ a.ncols) (i j : Int) :
    get { a with grid := a.grid.swapSpan p q start stop } (.cell i j) =
      a.get (.cell (if start ≤ j ∧ j < stop then swapped p q i else i) j) := by
  let b : DenseMatrix α := { a with grid := a.grid.swapSpan p q start stop }
  by_cases hj : 0 ≤ j ∧ j < a.ncols
  · obtain ⟨j, rfl⟩ := exists_eq_natCast hj
    by_cases hi : 0 ≤ i ∧ i < a.nrows
    · obtain ⟨i, rfl⟩ := exists_eq_natCast hi
      refine (get_natCast b i j).trans ?_
      rw [Grid.cell_swapSpan, swapped_natCast]
      simp only [Int.ofNat_le, Int.ofNat_lt]
      split <;> exact (a.get_natCast _ j).symm
    · -- a row that is not there is none of the two
      have hother : swapped p q i = i := by
        have hp : i ≠ p := by rintro rfl; exact hi (by omega)
        have hq : i ≠ q := by rintro rfl; exact hi (by omega)
        rw [swapped, if_neg hp, if_neg hq]
      rw [hother, ite_self, get_of_not fun h => hi h.1]
      exact get_of_not (a := b) fun h => hi h.1
  · have hspan : ¬ ((start : Int) ≤ j ∧ j < stop) := by omega
    rw [if_neg hspan, get_of_not fun h => hj h.2]
    exact get_of_not (a := b) fun h => hj h.2

/-! ### In the buffer -/

/-- **The buffer has the cells of the answer**; what is refused is refused before anything is written. -/
theorem run_exchangeRows (a : DenseMatrix α) (r s : Int) (cs : Columns) :
    (Buffer.exchangeRows a.shape r s cs).run.run a.cells =
      match a.exchange r s cs with
      | .ok b => (.ok (), b.cells)
      | .error e => (.error e, a.cells) := by
  rw [Buffer.run_exchangeRows, cols_shape]
  by_cases h : a.shape.HasRows r s ∧ cs.Fits a.ncols
  · rw [if_pos h.1, if_pos h.2]
    obtain ⟨p, q, start, stop, rfl, rfl, hstart, hstop, hle, hn⟩ := exists_bounds h
    have hcells : cells { a with grid := a.grid.swapSpan p q start stop } =
        Buffer.exchange a.cells (p * a.ncols + start) (q * a.ncols + start) (stop - start) :=
      a.grid.toList_swapSpan p q hle hn
    have hcount : ((stop : Int) - start).toNat = stop - start := by omega
    rw [a.exchange_natCast p q hstart hstop hle hn, hstart, hstop, hcount]
    simp only [hcells, Int.toNat_natCast]
  · rw [exchange_of_not h]
    by_cases hrows : a.shape.HasRows r s
    · rw [if_pos hrows, if_pos hrows, if_neg fun hfits => h ⟨hrows, hfits⟩]
    · rw [if_neg hrows, if_neg hrows]

/-- **What a request for an exchange does.**  If its rows and columns are there, it is met: the shape stays, in these
columns the cells of the two rows are exchanged, every other cell is what it was, and the same request undoes it.  If
they are not, it is refused.  Either way the buffer has the cells of the matrix that there is then.  The columns in
front of one and those from there on make up all of them, in any order. -/
theorem exchange_cases (a : DenseMatrix α) (r s : Int) :
    (∀ cs : Columns, a.shape.HasRows r s ∧ cs.Fits a.ncols → ∃ b, a.exchange r s cs = .ok b ∧ b.shape = a.shape ∧
      (∀ i j, b.get (.cell i j) = a.get (.cell (if cs.Has a.ncols j then swapped r s i else i) j)) ∧
      b.exchange r s cs = .ok a ∧
      (Buffer.exchangeRows a.shape r s cs).run.run a.cells = (.ok (), b.cells)) ∧
    (∀ cs : Columns, ¬ (a.shape.HasRows r s ∧ cs.Fits a.ncols) →
      ∃ e, e = (if a.shape.HasRows r s then .noSpan cs.start (cs.stop a.ncols) else .noRow) ∧
        a.exchange r s cs = .error e ∧
        (Buffer.exchangeRows a.shape r s cs).run.run a.cells = (.error e, a.cells)) ∧
    (∀ c : Int, 0 ≤ c → c ≤ a.ncols →
      (a.exchange r s (.before c)).bind (·.exchange r s (.startingAt c)) = a.exchange r s .all ∧
      (a.exchange r s (.startingAt c)).bind (·.exchange r s (.before c)) = a.exchange r s .all) := by
  refine ⟨fun cs h => ?_, fun cs h => ⟨_, rfl, exchange_of_not h, ?_⟩, fun c hc hn => ?_⟩
  · obtain ⟨p, q, start, stop, rfl, rfl, hstart, hstop, hle, hn⟩ := exists_bounds h
    have hrequest := a.exchange_natCast p q hstart hstop hle hn
    let b : DenseMatrix α := { a with grid := a.grid.swapSpan p q start stop }
    refine ⟨b, hrequest, rfl, fun i j => ?_, ?_, ?_⟩
    · rw [get_swapSpan a p q hn]
      simp only [Columns.Has, hstart, hstop]
    · rw [b.exchange_natCast p q hstart hstop hle hn]
      show Except.ok (⟨_, _, (a.grid.swapSpan p q start stop).swapSpan p q start stop⟩ : DenseMatrix α) = _
      rw [Grid.swapSpan_swapSpan_self]
    · rw [run_exchangeRows, hrequest]
  · rw [run_exchangeRows, exchange_of_not h]
  · by_cases hrows : a.shape.HasRows r s
    · obtain ⟨c, rfl⟩ := Int.eq_ofNat_of_zero_le hc
      obtain ⟨p, q, rfl, rfl⟩ := exists_rows hrows
      have hn' : c ≤ a.ncols := by omega
      have hbefore (g : Grid α a.nrows a.ncols) : exchange ⟨_, _, g⟩ p q (.before c) = .ok ⟨_, _, g.swapSpan p q 0 c⟩ :=
        exchange_natCast ⟨_, _, g⟩ p q rfl rfl (Nat.zero_le c) hn'
      have hbehind (g : Grid α a.nrows a.ncols) :
          exchange ⟨_, _, g⟩ p q (.startingAt c) = .ok ⟨_, _, g.swapSpan p q c a.ncols⟩ :=
        exchange_natCast ⟨_, _, g⟩ p q rfl rfl hn' (Nat.le_refl _)
      have hall : a.exchange p q .all = .ok ⟨_, _, a.grid.swapSpan p q 0 a.ncols⟩ :=
        a.exchange_natCast p q rfl rfl (Nat.zero_le _) (Nat.le_refl _)
      rw [hall, hbefore a.grid, hbehind a.grid]
      refine ⟨(hbehind _).trans ?_, (hbefore _).trans ?_⟩
      · rw [Grid.swapSpan_swapSpan _ _ _ (Nat.zero_le c) hn']
      · rw [Grid.swapSpan_comm, Grid.swapSpan_swapSpan _ _ _ (Nat.zero_le c) hn']
    · -- each request is refused for its rows
      have hrefused (cs : Columns) : a.exchange r s cs = .error .noRow := by
        rw [exchange_of_not fun h => hrows h.1, if_neg hrows]
      rw [hrefused, hrefused, hrefused]
      exact ⟨rfl, rfl⟩

/-- A matrix of two rows. -/
def twoRows : DenseMatrix Nat := .ofVectors [#v[1, 2, 3], #v[4, 5, 6]]

theorem exchange_cases_twoRows :
    (twoRows.shape.HasRows 0 1 ∧ (Columns.before 2).Fits 3 ∧
      ∃ b, twoRows.exchange 0 1 (.before 2) = .ok b ∧ b.shape = ⟨2, 3⟩ ∧
        b.get (.cell 0 1) = twoRows.get (.cell 1 1) ∧ b.get (.cell 0 2) = twoRows.get (.cell 0 2) ∧
        b.exchange 0 1 (.before 2) = .ok twoRows ∧
        (Buffer.exchangeRows ⟨2, 3⟩ 0 1 (.before 2)).run.run [1, 2, 3, 4, 5, 6] = (.ok (), b.cells)) ∧
    (¬ (twoRows.shape.HasRows 0 1 ∧ (Columns.startingAt 4).Fits 3) ∧
      twoRows.exchange 0 1 (.startingAt 4) = .error (.noSpan 4 3) ∧
      (Buffer.exchangeRows ⟨2, 3⟩ 0 1 (.startingAt 4)).run.run [1, 2, 3, 4, 5, 6] =
        (.error (.noSpan 4 3), [1, 2, 3, 4, 5, 6])) ∧
    ((0 : Int) ≤ 2 ∧ (2 : Int) ≤ 3 ∧
      (twoRows.exchange 0 1 (.startingAt 2)).bind (·.exchange 0 1 (.before 2)) = twoRows.exchange 0 1 .all) := by
  obtain ⟨hmet, hrefused, hparts⟩ := exchange_cases twoRows 0 1
  have hthere : twoRows.shape.HasRows 0 1 ∧ (Columns.before 2).Fits 3 := by decide
  have houtside : ¬ (twoRows.shape.HasRows 0 1 ∧ (Columns.startingAt 4).Fits 3) := by decide
  obtain ⟨b, hb, hshape, hget, hundone, hbuffer⟩ := hmet (.before 2) hthere
  obtain ⟨e, rfl, he, hkept⟩ := hrefused (.startingAt 4) houtside
  have hcells : twoRows.cells = [1, 2, 3, 4, 5, 6] := by decide +kernel
  rw [hcells] at hbuffer hkept
  rw [if_pos hthere.1] at he hkept
  exact ⟨⟨hthere.1, hthere.2, b, hb, hshape, hget 0 1, hget 0 2, hundone, hbuffer⟩, ⟨houtside, he, hkept⟩,
    by decide, by decide, (hparts 2 (by decide) (by decide)).2⟩

/-- A row that is exchanged with itself. -/
example : (Buffer.exchangeRows ⟨2, 3⟩ 1 1 .all).run.run [1, 2, 3, 4, 5, 6] = (.ok (), [1, 2, 3, 4, 5, 6]) := by rfl

end DenseMatrix

end MatrixCalc
