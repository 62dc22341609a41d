/-
**What can be told of an expression before it is evaluated.**

The variables that occur in an expression can be read off it, and so can its assignments, in the order in
which they are carried out.  For this the items of a sequence are run on a stack as in an evaluation, but what
stands on the stack is no operand, only the variable that the operand would stand for, if any: a variable
stands for itself, an assignment for the variable on its left, and a computed value for none.  On the tree that
a sequence lists, the targets are the variables that stand on the left of some assignment, at any depth.

Main definitions:

* `MatrixCalc.Expr.names` — the variables that occur in an expression;
* `MatrixCalc.Expr.referent?`, `MatrixCalc.ExprTree.referent?` — the variable that an expression or a tree
  stands for;
* `MatrixCalc.Expr.assignments`, `MatrixCalc.Expr.targets` — the assignments of an expression, and the
  variables that they assign;
* `MatrixCalc.ExprTree.Assigns` — a tree assigns a variable, be it in a cell of a literal.

Main results:

* `MatrixCalc.Expr.mem_names_of_mem_targets` — what is assigned occurs in the expression;
* `MatrixCalc.ExprTree.referent?_ofItems`, `MatrixCalc.ExprTree.mem_targets_ofItems` — **an expression stands
  for the variable of its tree, and its targets are those of its tree**.
-/

import MatrixCalc.Proofs.Evaluation.Tree

set_option autoImplicit false

namespace MatrixCalc

/-! ### Expressions -/

/-- The variables that the operands on a stack stand for, behind an operator. -/
def Operator.referents (op : Operator) : List (Option String) → List (Option String)
  | _ :: left :: stack => (if op = .assign then left else none) :: stack
  | _ => []

/-- The assignment that an operator carries out: it is one, and what is on its left stands for a variable. -/
def Operator.assignments (op : Operator) (line : Int) : List (Option String) → List Assignment
  | _ :: some n :: _ => if op = .assign then [⟨line, n⟩] else []
  | _ => []

theorem Operator.mem_assignments_iff {op : Operator} {line : Int} {right left : Option String}
    {stack : List (Option String)} {n : String} :
    n ∈ (op.assignments line (right :: left :: stack)).map Assignment.name ↔ op = .assign ∧ left = some n := by
  cases left with
  | none => simp [assignments]
  | some m =>
      rw [assignments]
      split
      · next hop => simp [hop, eq_comm]
      · next hop => simp [hop]

namespace Expr

mutual

/-- The variables that occur in an expression, in the order in which they are evaluated. -/
def names : Expr → List String
  | name _ n => [n]
  | matrix _ rows => rowsNames rows
  | sequence _ es => itemsNames es
  | _ => []

/-- The variables that occur in the rows of a literal. -/
def rowsNames : List (List Expr) → List String
  | [] => []
  | row :: rows => itemsNames row ++ rowsNames rows

/-- The variables that occur in the items of a sequence or the cells of a row. -/
def itemsNames : List Expr → List String
  | [] => []
  | e :: es => names e ++ itemsNames es

end

mutual

/-- The variable that an expression stands for: a variable for itself, an assignment for its target. -/
def referent? : Expr → Option String
  | name _ n => some n
  | sequence _ es => itemsReferent? [] es
  | _ => none

/-- The variable that the items of a sequence come to stand for, run on a stack of the variables that the
operands before them stand for. -/
def itemsReferent? (stack : List (Option String)) : List Expr → Option String
  | [] => stack.head?.join
  | operator _ op :: es => itemsReferent? (op.referents stack) es
  | e :: es => itemsReferent? (referent? e :: stack) es

end

mutual

/-- The assignments of an expression, those in cells of literals too, in the order in which they are carried
out. -/
def assignments : Expr → List Assignment
  | matrix _ rows => rowsAssignments rows
  | sequence _ es => itemsAssignments [] es
  | _ => []

/-- The assignments of the items of a sequence, run on a stack of the variables that the operands before them
stand for. -/
def itemsAssignments (stack : List (Option String)) : List Expr → List Assignment
  | [] => []
  | operator line op :: es => op.assignments line stack ++ itemsAssignments (op.referents stack) es
  | e :: es => assignments e ++ itemsAssignments (referent? e :: stack) es

/-- The assignments in the rows of a literal. -/
def rowsAssignments : List (List Expr) → List Assignment
  | [] => []
  | row :: rows => cellsAssignments row ++ rowsAssignments rows

/-- The assignments in the cells of a row. -/
def cellsAssignments : List Expr → List Assignment
  | [] => []
  | e :: es => assignments e ++ cellsAssignments es

end

/-- The variables that an expression assigns. -/
def targets (e : Expr) : List String := e.assignments.map Assignment.name

variable {e : Expr} {es : List Expr} {stack : List (Option String)} {n : String}

theorem itemsReferent?_operand (stack : List (Option String)) (es : List Expr)
    (he : ∀ l op, e ≠ .operator l op) :
    itemsReferent? stack (e :: es) = itemsReferent? (e.referent? :: stack) es := by
  cases e with
  | operator l op => exact absurd rfl (he l op)
  | _ => rw [itemsReferent?.eq_def]

theorem itemsAssignments_operand (stack : List (Option String)) (es : List Expr)
    (he : ∀ l op, e ≠ .operator l op) :
    itemsAssignments stack (e :: es) = e.assignments ++ itemsAssignments (e.referent? :: stack) es := by
  cases e with
  | operator l op => exact absurd rfl (he l op)
  | _ => rw [itemsAssignments.eq_def]

/-! ### What is assigned occurs -/

theorem mem_of_mem_referents {op : Operator} (h : some n ∈ op.referents stack) : some n ∈ stack := by
  match stack, h with
  | _ :: left :: stack, h =>
      rw [Operator.referents, List.mem_cons] at h
      rcases h with h | h
      · split at h
        · exact h ▸ by simp
        · cases h
      · simp [h]

theorem mem_of_mem_operator_assignments {op : Operator} {line : Int} {a : Assignment}
    (h : a ∈ op.assignments line stack) : some a.name ∈ stack := by
  match stack, h with
  | _ :: some n :: stack, h =>
      rw [Operator.assignments] at h
      split at h
      · obtain rfl := List.mem_singleton.1 h
        simp
      · cases h

mutual

/-- What an expression stands for occurs in it. -/
theorem mem_names_of_referent? : ∀ e : Expr, e.referent? = some n → n ∈ e.names
  | .name _ m, h => by
      rw [referent?, Option.some.injEq] at h
      rw [names, h]
      exact List.mem_singleton_self n
  | .sequence _ es, h => by
      rw [referent?] at h
      rw [names]
      simpa using mem_itemsNames_of_itemsReferent? es [] h
  | .number _ _, h | .matrix _ _, h | .operator _ _, h | .vacant, h => by
      rw [referent?] at h
      · cases h
      all_goals simp

theorem mem_itemsNames_of_itemsReferent? : ∀ (es : List Expr) (stack : List (Option String)),
    itemsReferent? stack es = some n → n ∈ itemsNames es ∨ some n ∈ stack
  | [], stack, h => by
      rw [itemsReferent?] at h
      exact .inr (List.mem_of_mem_head? (Option.join_eq_some_iff.1 h))
  | e :: es, stack, h => by
      rw [itemsNames, List.mem_append]
      by_cases he : ∃ l op, e = .operator l op
      · obtain ⟨l, op, rfl⟩ := he
        rw [itemsReferent?] at h
        exact (mem_itemsNames_of_itemsReferent? es _ h).imp .inr mem_of_mem_referents
      · have he' : ∀ l op, e ≠ .operator l op := fun l op h' => he ⟨l, op, h'⟩
        rw [itemsReferent?_operand stack es he'] at h
        rcases mem_itemsNames_of_itemsReferent? es _ h with h | h
        · exact .inl (.inr h)
        · rcases List.mem_cons.1 h with h | h
          · exact .inl (.inl (mem_names_of_referent? e h.symm))
          · exact .inr h

end

mutual

theorem mem_names_of_mem_assignments {a : Assignment} : ∀ e : Expr, a ∈ e.assignments → a.name ∈ e.names
  | .matrix _ rows, h => by
      rw [assignments] at h
      rw [names]
      exact mem_rowsNames_of_mem_rowsAssignments rows h
  | .sequence _ es, h => by
      rw [assignments] at h
      rw [names]
      simpa using mem_itemsNames_of_mem_itemsAssignments es [] h
  | .number _ _, h | .name _ _, h | .operator _ _, h | .vacant, h => by
      rw [assignments] at h
      · cases h
      all_goals simp

theorem mem_itemsNames_of_mem_itemsAssignments {a : Assignment} : ∀ (es : List Expr)
    (stack : List (Option String)), a ∈ itemsAssignments stack es → a.name ∈ itemsNames es ∨ some a.name ∈ stack
  | [], stack, h => by
      rw [itemsAssignments] at h
      cases h
  | e :: es, stack, h => by
      rw [itemsNames, List.mem_append]
      by_cases he : ∃ l op, e = .operator l op
      · obtain ⟨l, op, rfl⟩ := he
        rw [itemsAssignments, List.mem_append] at h
        rcases h with h | h
        · exact .inr (mem_of_mem_operator_assignments h)
        · exact (mem_itemsNames_of_mem_itemsAssignments es _ h).imp .inr mem_of_mem_referents
      · have he' : ∀ l op, e ≠ .operator l op := fun l op h' => he ⟨l, op, h'⟩
        rw [itemsAssignments_operand stack es he', List.mem_append] at h
        rcases h with h | h
        · exact .inl (.inl (mem_names_of_mem_assignments e h))
        · rcases mem_itemsNames_of_mem_itemsAssignments es _ h with h | h
          · exact .inl (.inr h)
          · rcases List.mem_cons.1 h with h | h
            · exact .inl (.inl (mem_names_of_referent? e h.symm))
            · exact .inr h

theorem mem_rowsNames_of_mem_rowsAssignments {a : Assignment} : ∀ rows : List (List Expr),
    a ∈ rowsAssignments rows → a.name ∈ rowsNames rows
  | [], h => by
      rw [rowsAssignments] at h
      cases h
  | row :: rows, h => by
      rw [rowsAssignments, List.mem_append] at h
      rw [rowsNames, List.mem_append]
      exact h.imp (mem_itemsNames_of_mem_cellsAssignments row) (mem_rowsNames_of_mem_rowsAssignments rows)

theorem mem_itemsNames_of_mem_cellsAssignments {a : Assignment} : ∀ es : List Expr,
    a ∈ cellsAssignments es → a.name ∈ itemsNames es
  | [], h => by
      rw [cellsAssignments] at h
      cases h
  | e :: es, h => by
      rw [cellsAssignments, List.mem_append] at h
      rw [itemsNames, List.mem_append]
      exact h.imp (mem_names_of_mem_assignments e) (mem_itemsNames_of_mem_cellsAssignments es)

end

/-- What is assigned occurs in the expression. -/
theorem mem_names_of_mem_targets (h : n ∈ e.targets) : n ∈ e.names := by
  obtain ⟨a, ha, rfl⟩ := List.mem_map.1 h
  exact mem_names_of_mem_assignments e ha

end Expr

/-! ### Trees -/

namespace ExprTree

/-- The variable that a tree stands for: a variable for itself, an assignment for its target. -/
def referent? : ExprTree → Option String
  | name _ n => some n
  | node _ op left _ => if op = .assign then left.referent? else none
  | grouped _ t => t.referent?
  | _ => none

/-- A tree assigns a variable somewhere. -/
inductive Assigns (n : String) : ExprTree → Prop where
  | here {l : Int} {left right : ExprTree} (h : left.referent? = some n) :
      Assigns n (.node l .assign left right)
  | left {l : Int} {op : Operator} {left right : ExprTree} (h : Assigns n left) :
      Assigns n (.node l op left right)
  | right {l : Int} {op : Operator} {left right : ExprTree} (h : Assigns n right) :
      Assigns n (.node l op left right)
  | cell {l : Int} {rows : List (List ExprTree)} {row : List ExprTree} {t : ExprTree}
      (hr : row ∈ rows) (ht : t ∈ row) (h : Assigns n t) : Assigns n (.literal l rows)
  | grouped {l : Int} {t : ExprTree} (h : Assigns n t) : Assigns n (.grouped l t)

variable {n : String}

theorem assigns_number {l : Int} {x : Float} : ¬ Assigns n (.number l x) := nofun

theorem assigns_name {l : Int} {m : String} : ¬ Assigns n (.name l m) := nofun

theorem assigns_literal {l : Int} {rows : List (List ExprTree)} :
    Assigns n (.literal l rows) ↔ ∃ row ∈ rows, ∃ t ∈ row, Assigns n t := by
  constructor
  · intro h
    cases h with
    | cell hr ht h => exact ⟨_, hr, _, ht, h⟩
  · rintro ⟨row, hr, t, ht, h⟩
    exact .cell hr ht h

theorem assigns_node {l : Int} {op : Operator} {left right : ExprTree} :
    Assigns n (.node l op left right) ↔
      Assigns n left ∨ Assigns n right ∨ op = .assign ∧ left.referent? = some n := by
  constructor
  · intro h
    cases h with
    | here h => exact .inr (.inr ⟨rfl, h⟩)
    | left h => exact .inl h
    | right h => exact .inr (.inl h)
  · rintro (h | h | ⟨rfl, h⟩)
    · exact .left h
    · exact .right h
    · exact .here h

theorem assigns_grouped {l : Int} {t : ExprTree} : Assigns n (.grouped l t) ↔ Assigns n t := by
  constructor
  · intro h
    cases h with
    | grouped h => exact h
  · exact .grouped

/-- The items of a tree put the variable of the tree on the stack. -/
theorem itemsReferent?_postorder : ∀ (t : ExprTree) (stack : List (Option String)) (es : List Expr),
    Expr.itemsReferent? stack (t.postorder ++ es) = Expr.itemsReferent? (t.referent? :: stack) es
  | .number _ _, stack, es | .name _ _, stack, es | .literal _ _, stack, es => by
      rw [postorder, List.singleton_append, Expr.itemsReferent?_operand stack es (by simp)]
      rfl
  | .node l op left right, stack, es => by
      rw [postorder, List.append_assoc, List.append_assoc, itemsReferent?_postorder left,
        itemsReferent?_postorder right, List.singleton_append, Expr.itemsReferent?, Operator.referents, referent?]
  | .grouped l t, stack, es => by
      have h := itemsReferent?_postorder t [] []
      rw [List.append_nil, Expr.itemsReferent?] at h
      rw [postorder, List.singleton_append, Expr.itemsReferent?_operand stack es (by simp), Expr.referent?, h,
        referent?]
      rfl

/-- A tree is one expression: a single operand, or the sequence of its items. -/
theorem ofItems_cases (l : Int) (t : ExprTree) :
    (∃ e, (∀ l op, e ≠ .operator l op) ∧ t.postorder = [e] ∧ Expr.ofItems l t.postorder = e) ∨
      Expr.ofItems l t.postorder = .sequence l t.postorder := by
  rcases hes : t.postorder with _ | ⟨e, _ | ⟨e', es⟩⟩
  · exact absurd hes t.postorder_ne_nil
  · refine .inl ⟨e, ?_, rfl, rfl⟩
    rintro l op rfl
    exact t.postorder_ne_operator l op hes
  · exact .inr rfl

/-- **An expression stands for the variable of its tree.** -/
theorem referent?_ofItems (l : Int) (t : ExprTree) : (Expr.ofItems l t.postorder).referent? = t.referent? := by
  have h := itemsReferent?_postorder t [] []
  rw [List.append_nil, Expr.itemsReferent?] at h
  rcases t.ofItems_cases l with ⟨e, he, hes, hexpr⟩ | hexpr
  · rw [hes, Expr.itemsReferent?_operand [] [] he, Expr.itemsReferent?] at h
    rw [hexpr]
    exact h
  · rw [hexpr, Expr.referent?]
    exact h

/-- The assignments of a tree as an expression are those of its items. -/
theorem assignments_ofItems (l : Int) (t : ExprTree) :
    (Expr.ofItems l t.postorder).assignments = Expr.itemsAssignments [] t.postorder := by
  rcases t.ofItems_cases l with ⟨e, he, hes, hexpr⟩ | hexpr
  · rw [hexpr, hes, Expr.itemsAssignments_operand [] [] he, Expr.itemsAssignments, List.append_nil]
  · rw [hexpr, Expr.assignments]

mutual

/-- The items of a tree carry out the assignments of the tree, and those of the items behind it. -/
theorem mem_itemsAssignments_postorder : ∀ (t : ExprTree) (stack : List (Option String)) (es : List Expr),
    n ∈ (Expr.itemsAssignments stack (t.postorder ++ es)).map Assignment.name ↔
      t.Assigns n ∨ n ∈ (Expr.itemsAssignments (t.referent? :: stack) es).map Assignment.name
  | .number l x, stack, es => by
      rw [postorder, List.singleton_append, Expr.itemsAssignments_operand stack es (by simp)]
      simp [Expr.assignments, assigns_number, Expr.referent?, referent?]
  | .name l m, stack, es => by
      rw [postorder, List.singleton_append, Expr.itemsAssignments_operand stack es (by simp)]
      simp [Expr.assignments, assigns_name, Expr.referent?, referent?]
  | .literal l rows, stack, es => by
      rw [postorder, List.singleton_append, Expr.itemsAssignments_operand stack es (by simp), List.map_append,
        List.mem_append, Expr.assignments, mem_rowsAssignments_rowsExprs rows, assigns_literal]
      rfl
  | .node l op left right, stack, es => by
      rw [postorder, List.append_assoc, List.append_assoc, mem_itemsAssignments_postorder left,
        mem_itemsAssignments_postorder right, List.singleton_append, Expr.itemsAssignments, List.map_append,
        List.mem_append, Operator.mem_assignments_iff, assigns_node, Operator.referents, referent?]
      simp only [or_assoc]
  | .grouped l t, stack, es => by
      have h := mem_itemsAssignments_postorder t [] []
      rw [List.append_nil, Expr.itemsAssignments] at h
      rw [postorder, List.singleton_append, Expr.itemsAssignments_operand stack es (by simp), List.map_append,
        List.mem_append, Expr.assignments, h, assigns_grouped]
      have hreferent := referent?_ofItems l (.grouped l t)
      rw [postorder, Expr.ofItems] at hreferent
      simp [hreferent]

theorem mem_rowsAssignments_rowsExprs : ∀ rows : List (List ExprTree),
    n ∈ (Expr.rowsAssignments (rowsExprs rows)).map Assignment.name ↔ ∃ row ∈ rows, ∃ t ∈ row, Assigns n t
  | [] => by simp [rowsExprs, Expr.rowsAssignments]
  | row :: rows => by
      rw [rowsExprs, Expr.rowsAssignments, List.map_append, List.mem_append, mem_cellsAssignments_cellExprs row,
        mem_rowsAssignments_rowsExprs rows]
      simp only [List.mem_cons, exists_eq_or_imp]

theorem mem_cellsAssignments_cellExprs : ∀ ts : List ExprTree,
    n ∈ (Expr.cellsAssignments (cellExprs ts)).map Assignment.name ↔ ∃ t ∈ ts, Assigns n t
  | [] => by simp [cellExprs, Expr.cellsAssignments]
  | t :: ts => by
      have h := mem_itemsAssignments_postorder t [] []
      rw [List.append_nil, Expr.itemsAssignments] at h
      rw [cellExprs, Expr.cellsAssignments, List.map_append, List.mem_append, assignments_ofItems, h,
        mem_cellsAssignments_cellExprs ts]
      simp

end

/-- **The targets of an expression are the variables that its tree assigns.** -/
theorem mem_targets_ofItems (l : Int) (t : ExprTree) : n ∈ (Expr.ofItems l t.postorder).targets ↔ t.Assigns n := by
  have h := mem_itemsAssignments_postorder (n := n) t [] []
  rw [List.append_nil, Expr.itemsAssignments] at h
  rw [Expr.targets, assignments_ofItems, h]
  simp

/-- The items of `(x = y) = z` assign `x` twice. -/
example : Expr.targets (.sequence 1 [.name 1 "x", .name 1 "y", .operator 1 .assign, .name 1 "z",
    .operator 1 .assign]) = ["x", "x"] := by decide

end ExprTree

end MatrixCalc
