/-
**Elimination in place.**

A matrix keeps its cells in one object of a memory, row after row.  Elimination copies the rows into objects of
their own, makes objects for the rows of the lower factor, and then works on these objects: it exchanges
references to rows, or the cells of two rows up to a column, and writes cells one after the other.  The objects are
apart from each other and from all that has been there before.  So the loop does what elimination does on grids,
and no object that has been there before is changed.

The loop ends after as many moves as there are columns, at most: the sum of the pivots and of the skipped columns
grows with each one.  None of this depends on what the operations on cells give.

Main definitions:

* `MatrixCalc.Memory` — objects and their cells;
* `MatrixCalc.InPlace` — the references and counters that elimination works with;
* `MatrixCalc.InPlace.view` — what elimination has come to, as grids;
* `MatrixCalc.InPlace.Apart` — the objects are apart from each other, and from older ones;
* `MatrixCalc.InPlace.Runs` — a whole run of the loop, with its moves.

Main results:

* `MatrixCalc.InPlace.view_swap`, `MatrixCalc.InPlace.view_clear`, `MatrixCalc.InPlace.read_finish` — the parts of the
  loop do what those of elimination do;
* `MatrixCalc.InPlace.Runs.rounds` — **the loop does what elimination does**;
* `MatrixCalc.InPlace.exists_runs` — **the loop ends**;
* `MatrixCalc.DenseMatrix.lu_structure` — **the structure of the decomposition, whatever the arithmetic**.
-/

import MatrixCalc.Proofs.Dense.Divisors
import MatrixCalc.Proofs.Dense.Rounds

set_option autoImplicit false

namespace MatrixCalc

/-! ### Memories -/

/-- Objects, named by numbers, and the cells at their indices. -/
abbrev Memory (α : Type) := Nat → Nat → α

namespace Memory

variable {α : Type} {n : Nat}

/-- The memory with a cell of an object replaced. -/
def write (mem : Memory α) (o j : Nat) (x : α) : Memory α := fun o' j' => if o' = o ∧ j' = j then x else mem o' j'

/-- The memory with the cells of two objects exchanged up to, but not including, an index. -/
def exchange (mem : Memory α) (a b stop : Nat) : Memory α := fun o j =>
  if j < stop then mem (if o = a then b else if o = b then a else o) j else mem o j

/-- The memory with new objects, `k` of them from `fresh` on, and with given cells. -/
def allocate (mem : Memory α) (fresh k : Nat) (cells : Nat → Nat → α) : Memory α := fun o =>
  if fresh ≤ o ∧ o < fresh + k then cells (o - fresh) else mem o

/-- The matrix `a` has its cells in an object, row after row. -/
def Holds (mem : Memory α) (o : Nat) (a : DenseMatrix α) : Prop :=
  ∀ (i : Fin a.nrows) (j : Fin a.ncols), mem o (i * a.ncols + j) = a.grid.cell i j

theorem write_of_ne (mem : Memory α) {o o' : Nat} (h : o' ≠ o) (j : Nat) (x : α) : mem.write o j x o' = mem o' :=
  funext fun _ => if_neg fun hc => h hc.1

theorem exchange_of_ne (mem : Memory α) {a b o : Nat} (ha : o ≠ a) (hb : o ≠ b) (stop : Nat) :
    mem.exchange a b stop o = mem o := by
  funext j
  simp only [exchange, if_neg ha, if_neg hb, ite_self]

theorem allocate_of_lt (mem : Memory α) {fresh o : Nat} (h : o < fresh) (k : Nat) (cells : Nat → Nat → α) :
    mem.allocate fresh k cells o = mem o :=
  if_neg fun hc => absurd h (Nat.not_lt_of_le hc.1)

theorem allocate_add (mem : Memory α) {i k : Nat} (h : i < k) (fresh : Nat) (cells : Nat → Nat → α) :
    mem.allocate fresh k cells (fresh + i) = cells i := by
  rw [allocate, if_pos ⟨Nat.le_add_right fresh i, Nat.add_lt_add_left h fresh⟩, Nat.add_sub_cancel_left]

section

variable [Sub α] [Mul α]

/-- Subtracts a multiple of the object `p` from the object `r`, one cell after the other. -/
def subtract (x : α) (r p : Nat) (mem : Memory α) (js : List Nat) : Memory α :=
  js.foldl (fun mem j => mem.write r j (mem r j - mem p j * x)) mem

/-- **Each cell is written once**, since the other object stays as it is. -/
theorem subtract_apply {x : α} {r p : Nat} (hp : p ≠ r) {js : List Nat} (hjs : js.Nodup) (mem : Memory α) (o j : Nat) :
    subtract x r p mem js o j = if o = r ∧ j ∈ js then mem r j - mem p j * x else mem o j := by
  induction js generalizing mem with
  | nil => simp [subtract]
  | cons k js ih =>
      obtain ⟨hk, hjs⟩ := List.nodup_cons.1 hjs
      have hcons : subtract x r p mem (k :: js) = subtract x r p (mem.write r k (mem r k - mem p k * x)) js := rfl
      rw [hcons, ih hjs, write_of_ne mem hp]
      by_cases ho : o = r
      · subst ho
        by_cases hj : j = k
        · subst hj
          simp [hk, write]
        · simp [hj, write]
      · simp [ho, write]

end

end Memory

/-! ### The loop -/

/-- What the elimination of an `m` by `n` grid works with: a memory, references to the objects of the rows of both
factors, the order of the rows, and the counters. -/
structure InPlace (α : Type) (m n : Nat) where
  mem : Memory α
  /-- The object of each row of the lower factor. -/
  lower : Fin m → Nat
  /-- The object of each row of what remains of the grid. -/
  upper : Fin m → Nat
  order : Vector (Fin m) m
  pivots : Nat
  skipped : Nat

/-- What the loop does with a column. -/
inductive Move where
  /-- There is no pivot. -/
  | skip
  /-- There is one, and the column is cleared below it. -/
  | pivot
  deriving DecidableEq

namespace InPlace

variable {α : Type} {m n : Nat}

/-- The column that the loop is at. -/
def column (w : InPlace α m n) : Nat := w.pivots + w.skipped

/-- What elimination has come to, as grids. -/
def view (w : InPlace α m n) : Elimination α m n where
  lower := .ofFn fun i j => w.mem (w.lower i) j
  upper := .ofFn fun i j => w.mem (w.upper i) j
  order := w.order
  pivots := w.pivots
  skipped := w.skipped

/-- Rows of zeros are made for the lower factor, and the rows of a matrix, which has its cells in the object `o`, are
copied.  The objects from `fresh` on have not been used. -/
def start [Zero α] (mem : Memory α) (o fresh : Nat) : InPlace α m n where
  mem := (mem.allocate fresh m fun _ _ => 0).allocate (fresh + m) m fun i j => mem o (i * n + j)
  lower i := fresh + i
  upper i := fresh + m + i
  order := Vector.ofFn id
  pivots := 0
  skipped := 0

/-- The references to the rows `a` and `b` are exchanged, and the cells of these rows of the lower factor up to the
column of the row `a`. -/
def swap (w : InPlace α m n) (a b : Fin m) : InPlace α m n :=
  { w with
    mem := w.mem.exchange (w.lower a) (w.lower b) a
    upper := fun i => w.upper (Grid.swapIndex a b i)
    order := Vector.ofFn fun i => w.order.get (Grid.swapIndex a b i) }

/-- A column is skipped. -/
def skip (w : InPlace α m n) : InPlace α m n := { w with skipped := w.skipped + 1 }

/-- The ones of the lower factor are written, from the top. -/
def finish [One α] (w : InPlace α m n) : InPlace α m n :=
  { w with mem := (List.finRange m).foldl (fun mem i => mem.write (w.lower i) i 1) w.mem }

/-- The decomposition, as it is read off the objects. -/
def read (w : InPlace α m n) : LU α m n where
  lower := .ofFn fun i j => w.mem (w.lower i) j
  upper := .ofFn fun i j => w.mem (w.upper i) j
  order := w.order
  rank := min m (n - w.skipped)

section

variable [Sub α] [Mul α] [Div α] [Numeric α]

/-- The row `r` is cleared in the column `c` by the pivot row `p`, unless its cell is negligible. -/
def clearRow (tolerance : α) (w : InPlace α m n) (p : Fin m) (c : Fin n) (mem : Memory α) (r : Fin m) : Memory α :=
  if Numeric.negligible tolerance (mem (w.upper r) c) then mem
  else
    let x := mem (w.upper r) c / mem (w.upper p) c
    (Memory.subtract x (w.upper r) (w.upper p) mem (List.range n)).write (w.lower r) p x

/-- The column `c` is cleared below the pivot row `p`, one row after the other. -/
def clear (tolerance : α) (w : InPlace α m n) (p : Fin m) (c : Fin n) : InPlace α m n :=
  { w with
    mem := ((List.finRange m).filter fun r => p < r).foldl (w.clearRow tolerance p c) w.mem
    pivots := w.pivots + 1 }

/-- A run of the loop from one state to another one, with its moves, in which no division fails. -/
inductive Runs (tolerance : α) : InPlace α m n → List Move → InPlace α m n → Prop where
  /-- The rows or the columns have come to an end. -/
  | stop {w : InPlace α m n} (h : m ≤ w.pivots ∨ n ≤ w.column) : Runs tolerance w [] w
  | skip {w w' : InPlace α m n} {moves : List Move} (hp : w.pivots < m) (hc : w.column < n)
      (hfind : Elimination.findPivot? tolerance w.view.upper w.pivots ⟨w.column, hc⟩ = none)
      (h : Runs tolerance w.skip moves w') : Runs tolerance w (.skip :: moves) w'
  | pivot {w w' : InPlace α m n} {moves : List Move} {r : Fin m} (hp : w.pivots < m) (hc : w.column < n)
      (hfind : Elimination.findPivot? tolerance w.view.upper w.pivots ⟨w.column, hc⟩ = some r)
      (hdivisor : Numeric.isDivisor ((w.swap ⟨w.pivots, hp⟩ r).view.upper.cell ⟨w.pivots, hp⟩ ⟨w.column, hc⟩) = true)
      (h : Runs tolerance ((w.swap ⟨w.pivots, hp⟩ r).clear tolerance ⟨w.pivots, hp⟩ ⟨w.column, hc⟩) moves w') :
      Runs tolerance w (.pivot :: moves) w'

end

/-! ### The objects -/

variable {fresh : Nat} {w w' : InPlace α m n}

/-- The objects are apart from each other, and from those before `fresh`. -/
structure Apart (fresh : Nat) (w : InPlace α m n) : Prop where
  lower : Function.Injective w.lower
  upper : Function.Injective w.upper
  /-- The factors have no object in common. -/
  ne (i j : Fin m) : w.lower i ≠ w.upper j
  le_lower (i : Fin m) : fresh ≤ w.lower i
  le_upper (i : Fin m) : fresh ≤ w.upper i

/-- Two states have the same older objects. -/
def Keeps (fresh : Nat) (w w' : InPlace α m n) : Prop := ∀ o < fresh, w'.mem o = w.mem o

theorem apart_start [Zero α] (mem : Memory α) (o fresh : Nat) :
    Apart fresh (start mem o fresh : InPlace α m n) where
  lower i j hij := Fin.ext (Nat.add_left_cancel hij)
  upper i j hij := Fin.ext (Nat.add_left_cancel hij)
  ne i j := by
    have hi := i.isLt
    show fresh + i ≠ fresh + m + j
    omega
  le_lower i := Nat.le_add_right fresh i
  le_upper i := Nat.le_trans (Nat.le_add_right fresh m) (Nat.le_add_right _ _)

theorem mem_start [Zero α] (mem : Memory α) (o fresh : Nat) : (start mem o fresh : InPlace α m n).mem =
    (mem.allocate fresh m fun _ _ => 0).allocate (fresh + m) m fun i j => mem o (i * n + j) := rfl

/-- Nothing that has been there before is changed by making the objects. -/
theorem mem_start_of_lt [Zero α] (mem : Memory α) {o fresh a : Nat} (ha : a < fresh) :
    (start mem o fresh : InPlace α m n).mem a = mem a := by
  rw [mem_start, Memory.allocate_of_lt _ (Nat.lt_add_right m ha), Memory.allocate_of_lt _ ha]

/-- The objects that have been made are rows of zeros, and the rows of the matrix. -/
theorem view_start [Zero α] {mem : Memory α} {o : Nat} {a : DenseMatrix α} (h : mem.Holds o a) :
    (start mem o fresh : InPlace α a.nrows a.ncols).view = .start a.grid := by
  have hlower : (start mem o fresh : InPlace α a.nrows a.ncols).view.lower = .ofFn fun _ _ => 0 := by
    refine Grid.ext_cell fun i j => ?_
    simp only [view, start, Grid.cell_ofFn]
    rw [Memory.allocate_of_lt _ (Nat.add_lt_add_left i.isLt fresh), Memory.allocate_add _ i.isLt]
  have hupper : (start mem o fresh : InPlace α a.nrows a.ncols).view.upper = a.grid := by
    refine Grid.ext_cell fun i j => ?_
    simp only [view, start, Grid.cell_ofFn]
    rw [Memory.allocate_add _ i.isLt, h i j]
  rw [Elimination.start, ← hlower, ← hupper]
  rfl

/-! ### Exchanges -/

theorem Apart.swap (h : w.Apart fresh) (a b : Fin m) : (w.swap a b).Apart fresh where
  lower := h.lower
  upper := h.upper.comp (Grid.swapIndex_injective a b)
  ne i _ := h.ne i _
  le_lower := h.le_lower
  le_upper _ := h.le_upper _

theorem Apart.keeps_swap (h : w.Apart fresh) (a b : Fin m) : w.Keeps fresh (w.swap a b) := fun _ ho =>
  Memory.exchange_of_ne _ (Nat.ne_of_lt (Nat.lt_of_lt_of_le ho (h.le_lower a)))
    (Nat.ne_of_lt (Nat.lt_of_lt_of_le ho (h.le_lower b))) _

/-- Exchanging references and cells exchanges rows. -/
theorem view_swap (h : w.Apart fresh) (a b : Fin m) : (w.swap a b).view = w.view.swap a b := by
  have hlower : (w.swap a b).view.lower = w.view.lower.swapSpan a b 0 a := by
    refine Grid.ext_cell fun i j => ?_
    simp only [view, Grid.cell_swapSpan, Grid.cell_ofFn, Nat.zero_le, true_and]
    show (if (j : Nat) < a then w.mem (if w.lower i = w.lower a then w.lower b
      else if w.lower i = w.lower b then w.lower a else w.lower i) j else w.mem (w.lower i) j) = _
    simp only [h.lower.eq_iff, Grid.swapIndex]
    split
    · rw [apply_ite w.lower, apply_ite w.lower]
    · rfl
  have hupper : (w.swap a b).view.upper = w.view.upper.swapRows a b := by
    refine Grid.ext_cell fun i j => ?_
    simp only [view, Grid.cell_swapRows, Grid.cell_ofFn]
    exact congrFun (Memory.exchange_of_ne _ (h.ne a _).symm (h.ne b _).symm _) j
  rw [Elimination.swap, ← hlower, ← hupper]
  rfl

theorem Apart.skip (h : w.Apart fresh) : w.skip.Apart fresh := ⟨h.lower, h.upper, h.ne, h.le_lower, h.le_upper⟩

/-! ### Clearing a column -/

section

variable [Sub α] [Mul α] [Div α] [Numeric α] {tolerance : α} {p r : Fin m} {c : Fin n} {mem mem' : Memory α} {o : Nat}

/-- Clearing a row writes to its own objects only. -/
theorem clearRow_of_ne (hlower : o ≠ w.lower r) (hupper : o ≠ w.upper r) (hp : w.upper p ≠ w.upper r) :
    w.clearRow tolerance p c mem r o = mem o := by
  funext j
  unfold clearRow
  split
  · rfl
  · rw [Memory.write_of_ne _ hlower, Memory.subtract_apply hp List.nodup_range, if_neg fun h => hupper h.1]

/-- The cells of a row of what remains, after the row has been cleared. -/
theorem clearRow_upper (h : w.Apart fresh) (hp : p ≠ r) (j : Fin n) :
    w.clearRow tolerance p c mem r (w.upper r) j =
      if Numeric.negligible tolerance (mem (w.upper r) c) then mem (w.upper r) j
      else mem (w.upper r) j - mem (w.upper p) j * (mem (w.upper r) c / mem (w.upper p) c) := by
  have hne : w.upper p ≠ w.upper r := fun he => hp (h.upper he)
  unfold clearRow
  split
  · rfl
  · rw [Memory.write_of_ne _ (h.ne r r).symm, Memory.subtract_apply hne List.nodup_range,
      if_pos ⟨rfl, List.mem_range.2 j.isLt⟩]

/-- The cells of a row of the lower factor, after the row has been cleared. -/
theorem clearRow_lower (h : w.Apart fresh) (hp : p ≠ r) (j : Fin m) :
    w.clearRow tolerance p c mem r (w.lower r) j =
      if Numeric.negligible tolerance (mem (w.upper r) c) = false ∧ j = p then
        mem (w.upper r) c / mem (w.upper p) c
      else mem (w.lower r) j := by
  have hne : w.upper p ≠ w.upper r := fun he => hp (h.upper he)
  unfold clearRow
  cases hnegligible : Numeric.negligible tolerance (mem (w.upper r) c) with
  | true => simp
  | false =>
      simp only [Memory.write, Memory.subtract_apply hne List.nodup_range, h.ne r r, Fin.val_inj, true_and,
        false_and, if_false, Bool.false_eq_true]

/-- What clearing a row writes depends on its own objects and on that of the pivot row. -/
theorem clearRow_congr (hp : w.upper p ≠ w.upper r) (hlower : mem (w.lower r) = mem' (w.lower r))
    (hupper : mem (w.upper r) = mem' (w.upper r)) (hpivot : mem (w.upper p) = mem' (w.upper p))
    (ho : o = w.lower r ∨ o = w.upper r) :
    w.clearRow tolerance p c mem r o = w.clearRow tolerance p c mem' r o := by
  have ho' : mem o = mem' o := by
    rcases ho with rfl | rfl
    · exact hlower
    · exact hupper
  funext j
  unfold clearRow
  simp only [hupper, hpivot]
  split
  · exact congrFun ho' j
  · simp only [Memory.write, Memory.subtract_apply hp List.nodup_range, hupper, hpivot, congrFun ho' j]

/-- Clearing rows one after the other leaves other objects as they are. -/
theorem foldl_clearRow_of_ne (h : w.Apart fresh) {rs : List (Fin m)} (hp : p ∉ rs) (mem : Memory α)
    (ho : ∀ r ∈ rs, o ≠ w.lower r ∧ o ≠ w.upper r) :
    rs.foldl (w.clearRow tolerance p c) mem o = mem o := by
  induction rs generalizing mem with
  | nil => rfl
  | cons r rs ih =>
      rw [List.mem_cons, not_or] at hp
      obtain ⟨hpr, hp⟩ := hp
      obtain ⟨hlower, hupper⟩ := ho r List.mem_cons_self
      rw [List.foldl_cons, ih hp _ fun r hr => ho r (List.mem_cons_of_mem _ hr),
        clearRow_of_ne hlower hupper fun he => hpr (h.upper he)]

/-- **Each row is cleared as if it were the only one.** -/
theorem foldl_clearRow_of_mem (h : w.Apart fresh) {rs : List (Fin m)} (hrs : rs.Nodup) (hp : p ∉ rs) (mem : Memory α)
    (hr : r ∈ rs) (ho : o = w.lower r ∨ o = w.upper r) :
    rs.foldl (w.clearRow tolerance p c) mem o = w.clearRow tolerance p c mem r o := by
  induction rs generalizing mem with
  | nil => cases hr
  | cons x rs ih =>
      obtain ⟨hx, hrs⟩ := List.nodup_cons.1 hrs
      rw [List.mem_cons, not_or] at hp
      obtain ⟨hpx, hp⟩ := hp
      have hpx' : w.upper p ≠ w.upper x := fun he => hpx (h.upper he)
      rw [List.foldl_cons]
      rcases List.mem_cons.1 hr with rfl | hr
      · -- the rows behind this one have other objects
        have hne (y : Fin m) (hy : y ∈ rs) : o ≠ w.lower y ∧ o ≠ w.upper y := by
          have hy' : r ≠ y := fun he => hx (he ▸ hy)
          rcases ho with rfl | rfl
          · exact ⟨fun he => hy' (h.lower he), h.ne r y⟩
          · exact ⟨(h.ne y r).symm, fun he => hy' (h.upper he)⟩
        exact foldl_clearRow_of_ne h hp _ hne
      · have hrx : r ≠ x := fun he => hx (he ▸ hr)
        have hpr : p ≠ r := fun he => hp (he ▸ hr)
        rw [ih hrs hp _ hr]
        exact clearRow_congr (fun he => hpr (h.upper he))
          (clearRow_of_ne (fun he => hrx (h.lower he)) (h.ne r x) hpx')
          (clearRow_of_ne (h.ne x r).symm (fun he => hrx (h.upper he)) hpx')
          (clearRow_of_ne (h.ne x p).symm hpx' hpx') ho

theorem Apart.clear (h : w.Apart fresh) (p : Fin m) (c : Fin n) : (w.clear tolerance p c).Apart fresh :=
  ⟨h.lower, h.upper, h.ne, h.le_lower, h.le_upper⟩

theorem not_mem_below (p : Fin m) : p ∉ (List.finRange m).filter fun r => p < r := by simp

theorem Apart.keeps_clear (h : w.Apart fresh) (p : Fin m) (c : Fin n) : w.Keeps fresh (w.clear tolerance p c) :=
  fun _ ho => foldl_clearRow_of_ne h (not_mem_below p) _ fun r _ =>
    ⟨Nat.ne_of_lt (Nat.lt_of_lt_of_le ho (h.le_lower r)), Nat.ne_of_lt (Nat.lt_of_lt_of_le ho (h.le_upper r))⟩

/-- Clearing a column in place clears it. -/
theorem view_clear (h : w.Apart fresh) (p : Fin m) (c : Fin n) :
    (w.clear tolerance p c).view = w.view.clear tolerance p c := by
  have hnodup : ((List.finRange m).filter fun r => p < r).Nodup := (List.nodup_finRange m).filter _
  have hmem (i : Fin m) (o : Nat) (ho : o = w.lower i ∨ o = w.upper i) : (w.clear tolerance p c).mem o =
      if p < i then w.clearRow tolerance p c w.mem i o else w.mem o := by
    split
    · next hi => exact foldl_clearRow_of_mem h hnodup (not_mem_below p) w.mem (by simpa using hi) ho
    · next hi =>
        refine foldl_clearRow_of_ne h (not_mem_below p) w.mem fun r hr => ?_
        have hir : i ≠ r := by
          rintro rfl
          exact hi (by simpa using hr)
        rcases ho with rfl | rfl
        · exact ⟨fun he => hir (h.lower he), h.ne i r⟩
        · exact ⟨(h.ne r i).symm, fun he => hir (h.upper he)⟩
  have hlower : (w.clear tolerance p c).view.lower = (w.view.clear tolerance p c).lower := by
    refine Grid.ext_cell fun i j => ?_
    simp only [view, Elimination.clear, Grid.cell_ofFn, Elimination.needsClearing, Elimination.factor]
    refine (congrFun (hmem i (w.lower i) (.inl rfl)) j).trans ?_
    by_cases hi : p < i
    · rw [if_pos hi, clearRow_lower h (Fin.ne_of_lt hi)]
      simp [hi]
    · simp [hi]
  have hupper : (w.clear tolerance p c).view.upper = (w.view.clear tolerance p c).upper := by
    refine Grid.ext_cell fun i j => ?_
    simp only [view, Elimination.clear, Grid.cell_ofFn, Elimination.needsClearing, Elimination.factor]
    refine (congrFun (hmem i (w.upper i) (.inr rfl)) j).trans ?_
    by_cases hi : p < i
    · rw [if_pos hi, clearRow_upper h (Fin.ne_of_lt hi)]
      cases Numeric.negligible tolerance (w.mem (w.upper i) c) <;> simp [hi]
    · simp [hi]
  rw [view, Elimination.mk.injEq]
  exact ⟨hlower, hupper, rfl, rfl, rfl⟩

/-! ### Runs -/

variable {moves : List Move}

omit [Sub α] [Mul α] [Div α] [Numeric α] in
theorem Keeps.trans {w'' : InPlace α m n} (h : w.Keeps fresh w') (h' : w'.Keeps fresh w'') : w.Keeps fresh w'' :=
  fun o ho => (h' o ho).trans (h o ho)

/-- What skipping a column and dealing with a pivot keep, runs keep. -/
theorem Runs.preserves (P : InPlace α m n → Prop) (hskip : ∀ w, P w → P w.skip)
    (hpivot : ∀ (w : InPlace α m n) (p r : Fin m) (c : Fin n), P w → P ((w.swap p r).clear tolerance p c))
    (h : Runs tolerance w moves w') (hw : P w) : P w' := by
  induction h with
  | stop _ => exact hw
  | skip _ _ _ _ ih => exact ih (hskip _ hw)
  | pivot _ _ _ _ _ ih => exact ih (hpivot _ _ _ _ hw)

/-- **No object that has been there before is changed**, and the objects stay apart. -/
theorem Runs.keeps (h : Runs tolerance w moves w') (hw : w.Apart fresh) : w'.Apart fresh ∧ w.Keeps fresh w' := by
  refine h.preserves (fun u => u.Apart fresh ∧ w.Keeps fresh u) ?_ ?_ ⟨hw, fun _ _ => rfl⟩
  · rintro u ⟨hu, hkeeps⟩
    exact ⟨hu.skip, hkeeps⟩
  · rintro u p r c ⟨hu, hkeeps⟩
    exact ⟨(hu.swap p r).clear p c, (hkeeps.trans (hu.keeps_swap p r)).trans ((hu.swap p r).keeps_clear p c)⟩

/-- Each move goes on by one column, and those to a pivot count the pivots.  In the end the rows or the columns have
come to an end. -/
theorem Runs.counts (h : Runs tolerance w moves w') :
    w'.column = w.column + moves.length ∧ w'.pivots = w.pivots + moves.count .pivot ∧
      (m ≤ w'.pivots ∨ n ≤ w'.column) := by
  induction h with
  | stop h => exact ⟨rfl, rfl, h⟩
  | @skip w _ moves _ _ _ _ ih =>
      obtain ⟨hcolumn, hpivots, hdone⟩ := ih
      refine ⟨hcolumn.trans ?_, hpivots.trans ?_, hdone⟩
      · simp only [column, InPlace.skip, List.length_cons]
        omega
      · simp [InPlace.skip]
  | @pivot w _ moves _ _ _ _ _ _ ih =>
      obtain ⟨hcolumn, hpivots, hdone⟩ := ih
      refine ⟨hcolumn.trans ?_, hpivots.trans ?_, hdone⟩
      · simp only [column, clear, InPlace.swap, List.length_cons]
        omega
      · simp only [clear, InPlace.swap, List.count_cons_self]
        omega

/-- A round at the end of the rows or columns does nothing. -/
theorem round_of_done {s : Elimination α m n} (h : m ≤ s.pivots ∨ n ≤ s.column) : s.round tolerance = .ok s := by
  unfold Elimination.round
  split
  · rw [dif_neg (by omega)]
  · rfl

/-- A round without a pivot skips the column. -/
theorem round_of_none {s : Elimination α m n} (hp : s.pivots < m) (hc : s.column < n)
    (hfind : Elimination.findPivot? tolerance s.upper s.pivots ⟨s.column, hc⟩ = none) :
    s.round tolerance = .ok s.skip := by
  unfold Elimination.round
  rw [dif_pos hp, dif_pos hc, hfind]

/-- A round with a pivot brings it up and clears the column, if the pivot may be divided by. -/
theorem round_of_some {s : Elimination α m n} (hp : s.pivots < m) (hc : s.column < n)
    (hfind : Elimination.findPivot? tolerance s.upper s.pivots ⟨s.column, hc⟩ = some r)
    (hdivisor : Numeric.isDivisor ((s.swap ⟨s.pivots, hp⟩ r).upper.cell ⟨s.pivots, hp⟩ ⟨s.column, hc⟩) = true) :
    s.round tolerance = .ok ((s.swap ⟨s.pivots, hp⟩ r).clear tolerance ⟨s.pivots, hp⟩ ⟨s.column, hc⟩) := by
  unfold Elimination.round
  rw [dif_pos hp, dif_pos hc, hfind]
  refine if_neg ?_
  rw [hdivisor, Bool.not_true, Bool.and_false]
  exact Bool.false_ne_true

/-- **The loop does what elimination does**, which has rounds for all columns. -/
theorem Runs.rounds (h : Runs tolerance w moves w') (hw : w.Apart fresh) {k : Nat} (hk : moves.length ≤ k) :
    Elimination.rounds tolerance k w.view = .ok w'.view := by
  induction h generalizing k with
  | @stop w h =>
      induction k with
      | zero => rfl
      | succ k ih =>
          rw [Elimination.rounds, round_of_done h]
          exact ih (Nat.zero_le k)
  | @skip w _ moves hp hc hfind _ ih =>
      obtain ⟨k, rfl⟩ := Nat.exists_eq_add_of_lt hk
      rw [Elimination.rounds, round_of_none (s := w.view) hp hc hfind]
      exact ih hw.skip (by simp at hk; omega)
  | @pivot w _ moves r hp hc hfind hdivisor _ ih =>
      obtain ⟨k, rfl⟩ := Nat.exists_eq_add_of_lt hk
      rw [view_swap hw] at hdivisor
      rw [Elimination.rounds, round_of_some (s := w.view) hp hc hfind hdivisor]
      have hview : ((w.swap ⟨w.pivots, hp⟩ r).clear tolerance ⟨w.pivots, hp⟩ ⟨w.column, hc⟩).view =
          (w.view.swap ⟨w.pivots, hp⟩ r).clear tolerance ⟨w.pivots, hp⟩ ⟨w.column, hc⟩ := by
        rw [view_clear (hw.swap _ r), view_swap hw]
      exact hview ▸ ih ((hw.swap _ r).clear _ _) (by simp at hk; omega)

/-- **The loop ends**, and no division fails if pivots may be divided by. -/
theorem exists_runs (h : Numeric.Guards tolerance) (hw : w.Apart fresh) : ∃ moves w', Runs tolerance w moves w' := by
  -- the columns that are left become fewer
  induction hleft : n - w.column generalizing w with
  | zero => exact ⟨[], w, .stop (.inr (by omega))⟩
  | succ left ih =>
      by_cases hp : w.pivots < m
      · have hc : w.column < n := by omega
        cases hfind : Elimination.findPivot? tolerance w.view.upper w.pivots ⟨w.column, hc⟩ with
        | none =>
            have hskip : n - w.skip.column = left := by
              simp only [column, skip] at hleft ⊢
              omega
            obtain ⟨moves, w', hrun⟩ := ih hw.skip hskip
            exact ⟨_, w', .skip hp hc hfind hrun⟩
        | some r =>
            have hdivisor : Numeric.isDivisor
                ((w.swap ⟨w.pivots, hp⟩ r).view.upper.cell ⟨w.pivots, hp⟩ ⟨w.column, hc⟩) = true := by
              rw [view_swap hw, Elimination.cell_swap_pivot]
              exact h _ (Elimination.findPivot?_some hfind).2
            have hpivot : n - ((w.swap ⟨w.pivots, hp⟩ r).clear tolerance ⟨w.pivots, hp⟩ ⟨w.column, hc⟩).column =
                left := by
              simp only [column, clear, swap] at hleft ⊢
              omega
            obtain ⟨moves, w', hrun⟩ := ih ((hw.swap _ r).clear _ _) hpivot
            exact ⟨_, w', .pivot hp hc hfind hdivisor hrun⟩
      · exact ⟨[], w, .stop (.inl (Nat.le_of_not_lt hp))⟩

end

/-! ### The decomposition -/

section

variable [One α]

/-- Where ones have been written, there are ones, and elsewhere nothing has changed. -/
theorem foldl_write_one (lower : Fin m → Nat) (is : List (Fin m)) (mem : Memory α) (o j : Nat) :
    is.foldl (fun mem i => mem.write (lower i) i 1) mem o j =
      if ∃ i ∈ is, o = lower i ∧ j = i then 1 else mem o j := by
  induction is generalizing mem with
  | nil => simp
  | cons i is ih =>
      rw [List.foldl_cons, ih]
      by_cases his : ∃ i ∈ is, o = lower i ∧ j = i
      · rw [if_pos his, if_pos (his.imp fun _ h => ⟨List.mem_cons_of_mem _ h.1, h.2⟩)]
      · rw [if_neg his, Memory.write]
        simp only [List.mem_cons, exists_eq_or_imp, his, or_false]

/-- The ones are written to objects of the lower factor only. -/
theorem Apart.keeps_finish (h : w.Apart fresh) : w.Keeps fresh w.finish := by
  intro o ho
  funext j
  refine (foldl_write_one w.lower _ w.mem o j).trans (if_neg ?_)
  rintro ⟨i, -, rfl, -⟩
  exact absurd ho (Nat.not_lt_of_le (h.le_lower i))

/-- The decomposition that is read off the objects is the one that elimination has come to. -/
theorem read_finish (h : w.Apart fresh) : w.finish.read = w.view.result := by
  have hlower : w.finish.read.lower = w.view.result.lower := by
    refine Grid.ext_cell fun i j => ?_
    simp only [read, view, Elimination.result, Grid.cell_ofFn]
    refine (foldl_write_one w.lower _ w.mem (w.lower i) j).trans ?_
    have hiff : (∃ k ∈ List.finRange m, w.lower i = w.lower k ∧ (j : Nat) = k) ↔ i = j := by
      simp [h.lower.eq_iff, Fin.val_inj, eq_comm]
    simp only [hiff]
  have hupper : w.finish.read.upper = w.view.result.upper := by
    refine Grid.ext_cell fun i j => ?_
    simp only [read, view, Elimination.result, Grid.cell_ofFn]
    refine (foldl_write_one w.lower _ w.mem (w.upper i) j).trans (if_neg ?_)
    rintro ⟨k, -, he, -⟩
    exact h.ne k i he.symm
  rw [read, LU.mk.injEq]
  exact ⟨hlower, hupper, rfl, rfl⟩

end

end InPlace

/-- **The structure of the decomposition, whatever the arithmetic.**  Let subtraction, multiplication and division of
doubles give anything, and the tolerance be at least zero.  Then the loop ends on a matrix of any shape and any cells,
with one move for a column at most, and what it has made is the decomposition: the rows are permuted, the lower factor
has ones on its diagonal and zeros above it, the upper one has the shape of the matrix, and the rank is the number of
moves to a pivot.  No object that has been there before is changed, so the matrix is what it was. -/
theorem DenseMatrix.lu_structure [Sub Float] [Mul Float] [Div Float] {tolerance : Float} (htolerance : 0 ≤ tolerance)
    (a : DenseMatrix Float) {mem : Memory Float} {o fresh : Nat} (ho : o < fresh) (ha : mem.Holds o a) :
    ∃ (d : LU Float a.nrows a.ncols) (moves : List Move) (w : InPlace Float a.nrows a.ncols),
      InPlace.Runs tolerance (.start mem o fresh) moves w ∧ moves.length ≤ a.ncols ∧
      w.finish.read = d ∧ a.lu tolerance = .ok d ∧
      Function.Bijective d.order.get ∧
      (∀ i, d.lower.cell i i = 1) ∧ (∀ i j, i < j → d.lower.cell i j = 0) ∧
      d.rank = moves.count .pivot ∧ d.rank ≤ min a.nrows a.ncols ∧
      (∀ o' < fresh, w.finish.mem o' = mem o') ∧ w.finish.mem.Holds o a := by
  have hstart : (InPlace.start mem o fresh : InPlace Float a.nrows a.ncols).Apart fresh :=
    InPlace.apart_start mem o fresh
  obtain ⟨moves, w, hrun⟩ := InPlace.exists_runs (Numeric.guards_of_le htolerance) hstart
  obtain ⟨hw, hkeeps⟩ := hrun.keeps hstart
  obtain ⟨hcolumn, hpivots, hdone⟩ := hrun.counts
  have hbefore (o' : Nat) (ho' : o' < fresh) : w.finish.mem o' = mem o' :=
    ((hw.keeps_finish o' ho').trans (hkeeps o' ho')).trans (InPlace.mem_start_of_lt mem ho')
  have hrounds {k : Nat} (hk : moves.length ≤ k) : Elimination.rounds tolerance k (.start a.grid) = .ok w.view := by
    rw [← InPlace.view_start ha]
    exact hrun.rounds hstart hk
  have hfilled := Elimination.Filled.rounds (hrounds (Nat.le_refl _))
  have hlength : moves.length ≤ a.ncols := by
    have hle : w.column ≤ a.ncols := hfilled.column
    exact Nat.le_trans (Nat.le_add_left _ _) (hcolumn ▸ hle)
  have hlu : a.lu tolerance = .ok w.view.result := by
    rw [lu, Grid.lu, hrounds hlength]
    rfl
  have hrank : w.view.result.rank = moves.count .pivot :=
    (hfilled.rank_result hdone).trans (hpivots.trans (Nat.zero_add _))
  refine ⟨w.view.result, moves, w, hrun, hlength, InPlace.read_finish hw, hlu,
    Finite.injective_iff_bijective.1 hfilled.order, Elimination.lower_result_self w.view,
    fun i j hij => hfilled.lower_result_of_lt hij, hrank, ?_, hbefore, fun i j => ?_⟩
  · exact min_le_min_left _ (Nat.sub_le _ _)
  · rw [hbefore o ho]
    exact ha i j

/-- A grid whose second row is brought to the top, and of which a cell is no number. -/
def Grid.zeroOnTop : Grid Float 3 2 := ⟨#v[#v[0, 1], #v[2, Decimal.quietNaN], #v[4, 5]]⟩

/-- A memory whose objects all hold it. -/
def Memory.zeroOnTop : Memory Float := fun _ k => Grid.zeroOnTop.toList.getD k 0

theorem DenseMatrix.lu_structure_zeroOnTop :
    (0 : Float) ≤ 0 ∧ Memory.zeroOnTop.Holds 0 ⟨3, 2, .zeroOnTop⟩ ∧
      ∃ (d : LU Float 3 2) (moves : List Move) (w : InPlace Float 3 2),
        InPlace.Runs 0 (.start Memory.zeroOnTop 0 1) moves w ∧ w.finish.read = d ∧ lu 0 ⟨3, 2, .zeroOnTop⟩ = .ok d ∧
        d.order = #v[1, 0, 2] ∧ (d.lower.cell 2 0 == 4 / 2) = true ∧ d.rank = 2 ∧ d.rank = moves.count .pivot ∧
        w.finish.mem.Holds 0 ⟨3, 2, .zeroOnTop⟩ := by
  have htolerance : (0 : Float) ≤ 0 := by decide
  have hcells : ∀ (i : Fin 3) (j : Fin 2), Memory.zeroOnTop 0 (i * 2 + j) = Grid.zeroOnTop.cell i j := by
    decide +kernel
  have hval : (Grid.zeroOnTop.lu 0).map (fun d => (d.order, d.lower.cell 2 0 == 4 / 2, d.rank)) =
      .ok (#v[1, 0, 2], true, 2) := by
    decide +kernel
  obtain ⟨d, moves, w, hrun, -, hread, hlu, -, -, -, hrank, -, -, hholds⟩ :=
    lu_structure htolerance ⟨3, 2, .zeroOnTop⟩ Nat.zero_lt_one hcells
  have hlu' : Grid.zeroOnTop.lu 0 = .ok d := hlu
  rw [hlu'] at hval
  obtain ⟨horder, hlower, htwo⟩ : d.order = #v[1, 0, 2] ∧ (d.lower.cell 2 0 == 4 / 2) = true ∧ d.rank = 2 := by
    simpa [Except.map] using hval
  exact ⟨htolerance, hcells, d, moves, w, hrun, hread, hlu, horder, hlower, htwo, hrank, hholds⟩

end MatrixCalc
