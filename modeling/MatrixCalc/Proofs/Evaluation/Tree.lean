/-
**Evaluation of expression trees.**

A sequence is run on a stack.  Here expressions are trees instead, and an operator node evaluates its left
tree, then its right tree, and then combines the two operands; nothing waits on a stack.  Running the
items of a tree in postorder does the same as evaluating the tree, to the environment as well as to the
result, whether that is an operand or a failure; and only sequences that list a tree in postorder can be
run to an operand at all.

Main definitions:

* `MatrixCalc.ExprTree` — expression trees;
* `MatrixCalc.ExprTree.postorder` — the items of a tree, each operator behind both of its operands;
* `MatrixCalc.ExprTree.evaluate` — the evaluation of trees;
* `MatrixCalc.ExprTree.Plain`, `MatrixCalc.Expr.Flat` — trees without sequences kept as operands, and
  sequences that hold no other ones;
* `MatrixCalc.Eval.Succeeds` — an evaluation gives a result somewhere.

Main results:

* `MatrixCalc.Eval.items_postorder` — running the items of a tree puts the operand of the tree on the
  stack;
* `MatrixCalc.Eval.exists_postorder_of_succeeds` — what can be run is a tree in postorder;
* `MatrixCalc.Eval.sequence_refines_tree` — **running sequences is evaluating trees**.
-/

import MatrixCalc.Evaluation.Machine

set_option autoImplicit false

namespace MatrixCalc

/-! ### Trees -/

/-- Expression trees. -/
inductive ExprTree where
  | number (line : Int) (x : Float)
  | name (line : Int) (name : String)
  /-- A matrix literal, whose cells are trees. -/
  | literal (line : Int) (rows : List (List ExprTree))
  /-- An operator and its operands. -/
  | node (line : Int) (op : Operator) (left right : ExprTree)
  /-- A tree kept as a sequence of its own: a cell with operators, say, and the line where it starts. -/
  | grouped (line : Int) (tree : ExprTree)

namespace ExprTree

/-- The line of the topmost token. -/
def line : ExprTree → Int
  | number l _ | name l _ | literal l _ | node l _ _ _ | grouped l _ => l

mutual

/-- The items of a tree, each operator behind both of its operands. -/
def postorder : ExprTree → List Expr
  | number l x => [.number l x]
  | name l n => [.name l n]
  | literal l rows => [.matrix l (rowsExprs rows)]
  | node l op left right => postorder left ++ postorder right ++ [.operator l op]
  | grouped l t => [.sequence l (postorder t)]

/-- The rows of a literal, whose cells are single items or sequences. -/
def rowsExprs : List (List ExprTree) → List (List Expr)
  | [] => []
  | row :: rows => cellExprs row :: rowsExprs rows

/-- The cells of a row, which are single items or sequences. -/
def cellExprs : List ExprTree → List Expr
  | [] => []
  | t :: ts => Expr.ofItems t.line (postorder t) :: cellExprs ts

end

theorem postorder_ne_nil (t : ExprTree) : t.postorder ≠ [] := by
  cases t <;> simp [postorder]

theorem two_le_length_postorder_node (l : Int) (op : Operator) (left right : ExprTree) :
    2 ≤ (node l op left right).postorder.length := by
  have hleft : left.postorder.length ≠ 0 := by simpa using postorder_ne_nil left
  simp only [postorder, List.length_append, List.length_cons, List.length_nil]
  omega

/-- An operator does not stand alone. -/
theorem postorder_ne_operator (t : ExprTree) (l : Int) (op : Operator) :
    t.postorder ≠ [.operator l op] := by
  intro h
  cases t with
  | node l' op' left right =>
      have hlength := two_le_length_postorder_node l' op' left right
      rw [h] at hlength
      simp at hlength
  | _ => simp [postorder] at h

mutual

/-- No operand of a tree is kept as a sequence of its own; cells may be. -/
def Plain (isCell : Bool) : ExprTree → Prop
  | number _ _ | name _ _ => True
  | literal _ rows => PlainRows rows
  | node _ _ left right => left.Plain false ∧ right.Plain false
  | grouped _ t => isCell = true ∧ t.Plain false

/-- The cells of all rows are plain. -/
def PlainRows : List (List ExprTree) → Prop
  | [] => True
  | row :: rows => PlainCells row ∧ PlainRows rows

/-- The cells of a row are plain. -/
def PlainCells : List ExprTree → Prop
  | [] => True
  | t :: ts => t.Plain true ∧ PlainCells ts

end

mutual

/-- Evaluates a tree to an operand: a reference if it is a variable or an assignment, else a value. -/
def evaluate (c : Context) : ExprTree → Eval Operand
  | number _ x => pure (.value (.scalar x))
  | name _ n => pure (.reference n)
  | literal _ rows => do
      let xss ← evaluateRows c none rows
      let v ← Eval.literal xss
      pure (.value v)
  | node l op left right => do
      let o ← evaluate c left
      let o' ← evaluate c right
      let r ← Eval.resolve o'
      if op = .assign then
        match o with
        | .reference n => do
            Eval.assign l n r
            pure (.reference n)
        | .value _ => Eval.fail .assignmentTarget
      else do
        let x ← Eval.resolve o
        let v ← Eval.ofExcept (Value.apply c.zeroTolerance op x r)
        pure (.value v)
  | grouped _ t => evaluate c t

/-- Evaluates the rows of a literal from the top, each of which must be as wide as the first one; `first`
is the width of that, if it has been evaluated. -/
def evaluateRows (c : Context) (first : Option Nat) : List (List ExprTree) → Eval (List (List Float))
  | [] => pure []
  | row :: rows => do
      let xs ← evaluateCells c row
      Eval.checkWidth first xs.length
      let xss ← evaluateRows c (some (first.getD xs.length)) rows
      pure (xs :: xss)

/-- Evaluates the cells of a row from the left; each is looked up at once, and must be a number. -/
def evaluateCells (c : Context) : List ExprTree → Eval (List Float)
  | [] => pure []
  | t :: ts => do
      let o ← evaluate c t
      let v ← Eval.resolve o
      let x ← Eval.cell v
      let xs ← evaluateCells c ts
      pure (x :: xs)

end

end ExprTree

/-! ### Sequences within sequences -/

namespace Expr

mutual

/-- No sequence holds another one, in the cells of literals neither. -/
def Flat : Expr → Prop
  | matrix _ rows => FlatRows rows
  | sequence _ es => FlatItems es
  | _ => True

/-- The items of a sequence that holds no other one. -/
def FlatItems : List Expr → Prop
  | [] => True
  | e :: es => (∀ l es', e ≠ .sequence l es') ∧ e.Flat ∧ FlatItems es

/-- Rows of cells in which no sequence holds another one. -/
def FlatRows : List (List Expr) → Prop
  | [] => True
  | row :: rows => FlatCells row ∧ FlatRows rows

/-- Cells in which no sequence holds another one. -/
def FlatCells : List Expr → Prop
  | [] => True
  | e :: es => e.Flat ∧ FlatCells es

end

theorem flatItems_append (es es' : List Expr) :
    FlatItems (es ++ es') ↔ FlatItems es ∧ FlatItems es' := by
  induction es with
  | nil => simp [FlatItems]
  | cons e es ih => simp only [List.cons_append, FlatItems, ih, and_assoc]

end Expr

namespace ExprTree

mutual

/-- If no item of a tree is a sequence, no operand is kept as one. -/
theorem plain_of_flatItems : ∀ t : ExprTree, Expr.FlatItems t.postorder → t.Plain false
  | number _ _, _ | name _ _, _ => by
      rw [Plain]
      trivial
  | literal l rows, h => by
      rw [postorder, Expr.FlatItems, Expr.Flat] at h
      rw [Plain]
      exact plainRows_of_flatRows rows h.2.1
  | node l op left right, h => by
      rw [postorder, Expr.flatItems_append, Expr.flatItems_append] at h
      rw [Plain]
      exact ⟨plain_of_flatItems left h.1.1, plain_of_flatItems right h.1.2⟩
  | grouped l t, h => by
      rw [postorder, Expr.FlatItems] at h
      exact absurd rfl (h.1 l t.postorder)

/-- A cell may be a sequence, but none that holds another one. -/
theorem plain_of_flat_ofItems : ∀ t : ExprTree, (Expr.ofItems t.line t.postorder).Flat → t.Plain true
  | number _ _, _ | name _ _, _ => by
      rw [Plain]
      trivial
  | literal l rows, h => by
      rw [postorder, Expr.ofItems, Expr.Flat] at h
      rw [Plain]
      exact plainRows_of_flatRows rows h
  | node l op left right, h => by
      rw [Expr.ofItems_of_two_le (two_le_length_postorder_node l op left right), Expr.Flat, postorder,
        Expr.flatItems_append, Expr.flatItems_append] at h
      rw [Plain]
      exact ⟨plain_of_flatItems left h.1.1, plain_of_flatItems right h.1.2⟩
  | grouped l t, h => by
      rw [postorder, Expr.ofItems, Expr.Flat] at h
      rw [Plain]
      exact ⟨rfl, plain_of_flatItems t h⟩

theorem plainRows_of_flatRows : ∀ rows : List (List ExprTree), Expr.FlatRows (rowsExprs rows) →
    PlainRows rows
  | [], _ => by
      rw [PlainRows]
      trivial
  | row :: rows, h => by
      rw [rowsExprs, Expr.FlatRows] at h
      rw [PlainRows]
      exact ⟨plainCells_of_flatCells row h.1, plainRows_of_flatRows rows h.2⟩

theorem plainCells_of_flatCells : ∀ ts : List ExprTree, Expr.FlatCells (cellExprs ts) →
    PlainCells ts
  | [], _ => by
      rw [PlainCells]
      trivial
  | t :: ts, h => by
      rw [cellExprs, Expr.FlatCells] at h
      rw [PlainCells]
      exact ⟨plain_of_flat_ofItems t h.1, plainCells_of_flatCells ts h.2⟩

end

end ExprTree

namespace Eval

/-! ### Running the items of a tree -/

theorem items_nil_singleton (c : Context) (o : Operand) : items c [o] [] = pure o := by
  rw [items]
  rfl

/-- An operand of a sequence is evaluated and put on the stack. -/
theorem items_operand (c : Context) (stack : List Operand) {e : Expr} (es : List Expr)
    (he : ∀ l op, e ≠ .operator l op) :
    items c stack (e :: es) = operand c e >>= fun o => items c (o :: stack) es := by
  cases e with
  | operator l op => exact absurd rfl (he l op)
  | _ => rw [items.eq_def]

/-- It does not matter whether a single operand stands in a sequence. -/
theorem operand_ofItems (c : Context) (l : Int) {es : List Expr}
    (hes : ∀ l op, es ≠ [.operator l op]) :
    operand c (Expr.ofItems l es) = items c [] es := by
  rcases es with _ | ⟨e, _ | ⟨e', es⟩⟩
  · rw [Expr.ofItems, operand]
    simp
  · have he : ∀ l op, e ≠ .operator l op := by
      intro l op h
      exact hes l op (by rw [h])
    rw [Expr.ofItems, items_operand c [] [] he]
    simp only [items_nil_singleton, bind_pure]
  · rw [Expr.ofItems, operand]
    simp

theorem items_operator (c : Context) (l : Int) (op : Operator) (o o' : Operand)
    (stack : List Operand) (es : List Expr) :
    items c (o' :: o :: stack) (.operator l op :: es) =
      binary c l op o o' >>= fun v => items c (v :: stack) es := by
  rw [items]
  simp only [operator, bind_assoc, pure_bind]

/-- What an operator does to its operands, whichever of the two ways it is. -/
theorem binary_eq (c : Context) (l : Int) (op : Operator) (o o' : Operand) :
    binary c l op o o' = (do
      let r ← resolve o'
      if op = .assign then
        match o with
        | .reference n => do
            assign l n r
            pure (.reference n)
        | .value _ => fail .assignmentTarget
      else do
        let x ← resolve o
        let v ← ofExcept (Value.apply c.zeroTolerance op x r)
        pure (.value v)) := by
  unfold binary
  cases op <;> cases o <;> rfl

mutual

/-- **Running the items of a tree puts the operand of the tree on the stack.** -/
theorem items_postorder (c : Context) : ∀ (t : ExprTree) (stack : List Operand) (es : List Expr),
    items c stack (t.postorder ++ es) = t.evaluate c >>= fun o => items c (o :: stack) es
  | .number l x, stack, es => by
      simp only [ExprTree.postorder, ExprTree.evaluate, List.cons_append, List.nil_append]
      rw [items_operand c stack es (by simp), operand]
  | .name l n, stack, es => by
      simp only [ExprTree.postorder, ExprTree.evaluate, List.cons_append, List.nil_append]
      rw [items_operand c stack es (by simp), operand]
  | .literal l rs, stack, es => by
      simp only [ExprTree.postorder, ExprTree.evaluate, List.cons_append, List.nil_append]
      rw [items_operand c stack es (by simp), operand, rows_rowsExprs c none rs]
  | .node l op a b, stack, es => by
      -- the left operand waits on the stack while the right tree is run
      simp only [ExprTree.postorder, ExprTree.evaluate, List.append_assoc]
      rw [items_postorder c a]
      simp only [items_postorder c b, List.cons_append, List.nil_append, items_operator, binary_eq,
        bind_assoc]
  | .grouped l t, stack, es => by
      -- a sequence of its own is run on a stack of its own
      have h := items_postorder c t [] []
      simp only [List.append_nil, items_nil_singleton, bind_pure] at h
      simp only [ExprTree.postorder, ExprTree.evaluate, List.cons_append, List.nil_append]
      rw [items_operand c stack es (by simp), operand, h]

theorem rows_rowsExprs (c : Context) : ∀ (first : Option Nat) (rs : List (List ExprTree)),
    rows c first (ExprTree.rowsExprs rs) = ExprTree.evaluateRows c first rs
  | first, [] => by simp only [ExprTree.rowsExprs, ExprTree.evaluateRows, rows]
  | first, row :: rs => by
      simp only [ExprTree.rowsExprs, ExprTree.evaluateRows, rows, cells_cellExprs c row,
        rows_rowsExprs c _ rs]

theorem cells_cellExprs (c : Context) : ∀ ts : List ExprTree,
    cells c (ExprTree.cellExprs ts) = ExprTree.evaluateCells c ts
  | [] => by simp only [ExprTree.cellExprs, ExprTree.evaluateCells, cells]
  | t :: ts => by
      have h := items_postorder c t [] []
      simp only [List.append_nil, items_nil_singleton, bind_pure] at h
      have ht := operand_ofItems c t.line t.postorder_ne_operator
      rw [ExprTree.cellExprs, ExprTree.evaluateCells, cells, ht, h, cells_cellExprs c ts]

end

/-- Running the items of a tree alone is evaluating the tree. -/
theorem items_postorder_nil (c : Context) (t : ExprTree) :
    items c [] t.postorder = t.evaluate c := by
  have h := items_postorder c t [] []
  simpa only [List.append_nil, items_nil_singleton, bind_pure] using h

/-- A tree as an expression is evaluated as the tree is. -/
theorem operand_ofItems_postorder (c : Context) (l : Int) (t : ExprTree) :
    operand c (Expr.ofItems l t.postorder) = t.evaluate c := by
  rw [operand_ofItems c l t.postorder_ne_operator, items_postorder_nil]

/-! ### What can be run -/

/-- An evaluation gives a result somewhere. -/
def Succeeds {α : Type} (m : Eval α) : Prop :=
  ∃ (p : Progress) (a : α) (p' : Progress), m.run p = (.ok a, p')

/-- An evaluation that does not fail where it is tried succeeds there. -/
theorem fails_or_succeeds {α : Type} (m : Eval α) (p : Progress) :
    (∃ e : Failure, (m.run p).1 = .error e) ∨ Succeeds m := by
  rcases hrun : m.run p with ⟨e | a, p'⟩
  · exact .inl ⟨e, rfl⟩
  · exact .inr ⟨p, a, p', hrun⟩

theorem not_succeeds_throw {α : Type} (e : Failure) : ¬ Succeeds (throw e : Eval α) := by
  rintro ⟨p, a, p', h⟩
  have he : (Except.error e : Except Failure α) = .ok a := congrArg Prod.fst h
  nomatch he

theorem run_pure {α : Type} (a : α) (p : Progress) : (pure a : Eval α).run p = (.ok a, p) := rfl

theorem run_ofExcept {α : Type} (r : Except Failure α) (p : Progress) :
    (ofExcept r).run p = (r, p) := by
  cases r <;> rfl

/-! Some evaluations do nothing with what they have come to: they are a result, or a failure. -/

theorem exists_cell_eq (v : Value Float) : ∃ r, cell v = ofExcept r := by
  cases v with
  | scalar x => exact ⟨.ok x, rfl⟩
  | matrix a => exact ⟨.error (.eval .nestedMatrices), rfl⟩

theorem exists_checkWidth_eq (first : Option Nat) (n : Nat) : ∃ r, checkWidth first n = ofExcept r := by
  cases first with
  | none => exact ⟨.ok (), rfl⟩
  | some m =>
      rw [checkWidth]
      split
      · exact ⟨.ok (), rfl⟩
      · exact ⟨.error (.eval (.inconsistentWidth m n)), rfl⟩

theorem exists_literal_eq (rows : List (List Float)) : ∃ r, literal rows = ofExcept r := by
  unfold literal
  split
  · next x => exact ⟨.ok (.scalar x), rfl⟩
  · exact ⟨_, rfl⟩

theorem exists_single_eq (stack : List Operand) : ∃ r, single stack = ofExcept r := by
  rcases stack with _ | ⟨o, _ | ⟨o', stack⟩⟩
  · exact ⟨.error (.eval _), rfl⟩
  · exact ⟨.ok o, rfl⟩
  · exact ⟨.error (.eval _), rfl⟩

/-- Of two evaluations in a row the second goes on where the first has come to. -/
theorem run_bind {α β : Type} (m : Eval α) (f : α → Eval β) (p : Progress) :
    (m >>= f).run p = match m.run p with
      | (.ok a, q) => (f a).run q
      | (.error e, q) => (.error e, q) := by
  rw [ExceptT.run_bind]
  show (StateT.bind _ _) p = _
  unfold StateT.bind
  rcases m.run p with ⟨_ | a, q⟩ <;> rfl

/-- Looking up a name gives its value, or fails if it has none. -/
theorem run_resolve_reference (name : String) (p : Progress) :
    (resolve (.reference name)).run p = match p.env.get? name with
      | some v => (.ok v, p)
      | none => (.error (.eval (.unbound name)), p) := by
  show (match p.env.get? name with
    | some v => (pure v : Eval (Value Float))
    | none => fail (.unbound name)).run p = _
  cases p.env.get? name <;> rfl

/-- Two evaluations in a row succeed only if both do. -/
theorem Succeeds.bind {α β : Type} {m : Eval α} {f : α → Eval β} (h : Succeeds (m >>= f)) :
    Succeeds m ∧ ∃ a, Succeeds (f a) := by
  obtain ⟨p, b, p', hrun⟩ := h
  rcases hm : m.run p with ⟨e | a, q⟩
  · rw [run_bind, hm] at hrun
    have he : (Except.error e : Except Failure β) = .ok b := congrArg Prod.fst hrun
    nomatch he
  · rw [run_bind, hm] at hrun
    exact ⟨⟨p, a, q, hm⟩, a, q, b, p', hrun⟩

/-- The items of the trees that stand on a stack, from the bottom. -/
def stacked (ts : List ExprTree) : List Expr := ts.reverse.flatMap ExprTree.postorder

theorem stacked_cons (t : ExprTree) (ts : List ExprTree) :
    stacked (t :: ts) = stacked ts ++ t.postorder := by
  simp only [stacked, List.reverse_cons, List.flatMap_append, List.flatMap_singleton]

mutual

/-- An expression that can be evaluated stands for a tree. -/
theorem exists_tree_of_operand (c : Context) : ∀ e : Expr,
    Succeeds (operand c e) → ∃ t : ExprTree, t.postorder = [e]
  | .number l x, _ => ⟨.number l x, by rw [ExprTree.postorder]⟩
  | .name l n, _ => ⟨.name l n, by rw [ExprTree.postorder]⟩
  | .matrix l rs, h => by
      rw [operand] at h
      obtain ⟨rows', hrows⟩ := exists_trees_of_rows c rs none h.bind.1
      exact ⟨.literal l rows', by rw [ExprTree.postorder, hrows]⟩
  | .sequence l es, h => by
      rw [operand] at h
      obtain ⟨t, ht⟩ := exists_tree_of_items c es [] [] rfl h
      exact ⟨.grouped l t, by rw [ExprTree.postorder, ← ht]; rfl⟩
  | .operator l op, h => by
      rw [operand] at h
      exact absurd h (not_succeeds_throw _)
  | .vacant, h => by
      rw [operand] at h
      exact absurd h (not_succeeds_throw _)

/-- What waits on the stack and the items that can be run from there are one tree in postorder. -/
theorem exists_tree_of_items (c : Context) :
    ∀ (es : List Expr) (stack : List Operand) (ts : List ExprTree), ts.length = stack.length →
      Succeeds (items c stack es) → ∃ t : ExprTree, stacked ts ++ es = t.postorder
  | [], stack, ts, hlen, h => by
      rw [items] at h
      rcases stack with _ | ⟨o, _ | ⟨o', stack⟩⟩
      · exact absurd h (not_succeeds_throw _)
      · obtain ⟨t, rfl⟩ := List.length_eq_one_iff.mp hlen
        exact ⟨t, by simp [stacked]⟩
      · exact absurd h (not_succeeds_throw _)
  | e :: es, stack, ts, hlen, h => by
      by_cases he : ∃ l op, e = .operator l op
      · -- an operator takes the two trees on top of the stack and leaves the node of them
        obtain ⟨l, op, rfl⟩ := he
        rcases stack with _ | ⟨o', _ | ⟨o, stack⟩⟩
        · rw [items] at h
          exact absurd h.bind.1 (not_succeeds_throw _)
        · rw [items] at h
          exact absurd h.bind.1 (not_succeeds_throw _)
        · obtain ⟨right, left, ts', rfl⟩ : ∃ right left ts', ts = right :: left :: ts' := by
            match ts, hlen with
            | right :: left :: ts', _ => exact ⟨right, left, ts', rfl⟩
          rw [items_operator] at h
          obtain ⟨v, hv⟩ := h.bind.2
          have hlen' : (ExprTree.node l op left right :: ts').length = (v :: stack).length := by
            simpa using hlen
          obtain ⟨t, ht⟩ := exists_tree_of_items c es (v :: stack) _ hlen' hv
          refine ⟨t, ?_⟩
          rw [← ht]
          simp only [stacked_cons, ExprTree.postorder, List.append_assoc, List.cons_append,
            List.nil_append]
      · -- an operand puts a tree on top of the stack
        have he' : ∀ l op, e ≠ .operator l op := fun l op h' => he ⟨l, op, h'⟩
        rw [items_operand c stack es he'] at h
        obtain ⟨hoperand, o, hrest⟩ := h.bind
        obtain ⟨t, ht⟩ := exists_tree_of_operand c e hoperand
        have hlen' : (t :: ts).length = (o :: stack).length := by simpa using hlen
        obtain ⟨t', ht'⟩ := exists_tree_of_items c es (o :: stack) (t :: ts) hlen' hrest
        refine ⟨t', ?_⟩
        rw [← ht', stacked_cons, ht, List.append_assoc]
        rfl

/-- Rows that can be evaluated are rows of trees. -/
theorem exists_trees_of_rows (c : Context) : ∀ (rs : List (List Expr)) (first : Option Nat),
    Succeeds (rows c first rs) → ∃ rows' : List (List ExprTree), ExprTree.rowsExprs rows' = rs
  | [], _, _ => ⟨[], by rw [ExprTree.rowsExprs]⟩
  | row :: rs, first, h => by
      rw [rows] at h
      obtain ⟨hcells, xs, hrest⟩ := h.bind
      obtain ⟨ts, hts⟩ := exists_trees_of_cells c row hcells
      obtain ⟨-, hrows⟩ := hrest.bind.2
      obtain ⟨rows', hrows'⟩ := exists_trees_of_rows c rs _ hrows.bind.1
      exact ⟨ts :: rows', by rw [ExprTree.rowsExprs, hts, hrows']⟩

/-- Cells that can be evaluated are cells of trees. -/
theorem exists_trees_of_cells (c : Context) : ∀ es : List Expr,
    Succeeds (cells c es) → ∃ ts : List ExprTree, ExprTree.cellExprs ts = es
  | [], _ => ⟨[], by rw [ExprTree.cellExprs]⟩
  | e :: es, h => by
      rw [cells] at h
      obtain ⟨hoperand, o, hresolve⟩ := h.bind
      obtain ⟨v, hcell⟩ := hresolve.bind.2
      obtain ⟨x, hrest⟩ := hcell.bind.2
      obtain ⟨t, ht⟩ := exists_tree_of_operand c e hoperand
      obtain ⟨ts, hts⟩ := exists_trees_of_cells c es hrest.bind.1
      exact ⟨t :: ts, by rw [ExprTree.cellExprs, ht, hts, Expr.ofItems]⟩

end

/-- A sequence that can be run lists a tree in postorder. -/
theorem exists_postorder_of_succeeds {c : Context} {line : Int} {es : List Expr}
    (h : Succeeds (operand c (.sequence line es))) : ∃ t : ExprTree, t.postorder = es := by
  rw [operand] at h
  obtain ⟨t, ht⟩ := exists_tree_of_items c es [] [] rfl h
  exact ⟨t, ht.symm⟩

/-! ### Running is evaluating -/

/-- **Running sequences is evaluating trees.**  The items of a tree in postorder do what the tree does, to
the environment too and also where that is to fail.  A sequence that gives an operand anywhere lists a tree
in postorder; if no sequence holds another one, no operand of the tree is kept as a sequence. -/
theorem sequence_refines_tree (c : Context) :
    (∀ (line : Int) (t : ExprTree) (p : Progress),
      (operand c (.sequence line t.postorder)).run p = (t.evaluate c).run p) ∧
    (∀ (line : Int) (es : List Expr) (p : Progress),
      (¬ ∃ t : ExprTree, t.postorder = es) →
      ∃ e : Failure, ((operand c (.sequence line es)).run p).1 = .error e) ∧
    (∀ (line : Int) (es : List Expr) (p : Progress), (Expr.sequence line es).Flat →
      (¬ ∃ t : ExprTree, t.Plain false ∧ t.postorder = es) →
      ∃ e : Failure, ((operand c (.sequence line es)).run p).1 = .error e) := by
  refine ⟨fun line t p => ?_, fun line es p hes => ?_, fun line es p hflat hes => ?_⟩
  · rw [operand, items_postorder_nil]
  · rcases fails_or_succeeds (operand c (.sequence line es)) p with hfails | hsucceeds
    · exact hfails
    · exact absurd (exists_postorder_of_succeeds hsucceeds) hes
  · rcases fails_or_succeeds (operand c (.sequence line es)) p with hfails | hsucceeds
    · exact hfails
    · obtain ⟨t, rfl⟩ := exists_postorder_of_succeeds hsucceeds
      rw [Expr.Flat] at hflat
      exact absurd ⟨t, t.plain_of_flatItems hflat, rfl⟩ hes

end Eval

end MatrixCalc
