/-
**Which statements store their value in `ans`.**

Whether a statement stores its value is decided when it is parsed, by the items of its expression.  So an
assignment among the items leaves `ans` alone, as reading a variable does.  But the cells of a literal are not
searched: if all assignments of a statement stand in cells, it stores its value like any other one.

Main results:

* `MatrixCalc.Parse.Obtained.storesAns_of_referent?` — reading or assigning a variable does not update `ans`;
* `MatrixCalc.Parse.Obtained.cell_of_assigns_eq_false` — an assignment that is not among the items stands in a
  cell;
* `MatrixCalc.Statement.ans_of_assign_within` — **what statements with assignments do to `ans`**.
-/

import MatrixCalc.Proofs.Evaluation.Frame

set_option autoImplicit false

namespace MatrixCalc

/-! ### Parsed statements -/

/-- The items of a derivation are operands and operators, and no sequences. -/
theorem Grammar.Tree.ne_sequence_of_mem_postorder {finish : Position} {v : Level} (t : Tree finish v) :
    ∀ e ∈ t.postorder, ∀ l es, e ≠ .sequence l es := by
  induction t with
  | leaf d =>
      intro e he l es
      obtain rfl := List.mem_singleton.1 he
      cases d with
      | number u x hk | name u hk => exact Expr.noConfusion
      | literal u body value hk hr =>
          obtain ⟨rows, rfl, -⟩ := Leaf.rows_of_reads hr
          exact Expr.noConfusion
  | paren p inner q ih | ofAtom a ih | ofProduct a ih | ofSum a ih => exact ih
  | product left o right ihl ihr | sum left o right ihl ihr | assign left o right ihl ihr =>
      intro e he l es
      rw [postorder, List.mem_append, List.mem_append, List.mem_singleton] at he
      rcases he with (he | he) | rfl
      · exact ihl e he l es
      · exact ihr e he l es
      · exact Expr.noConfusion

theorem Grammar.Tree.postorder_ne_nil {finish : Position} {v : Level} (t : Tree finish v) : t.postorder ≠ [] := by
  induction t with
  | leaf d => exact List.cons_ne_nil _ _
  | paren p inner q ih | ofAtom a ih | ofProduct a ih | ofSum a ih => exact ih
  | product left o right | sum left o right | assign left o right => simp [postorder]

/-- What is parsed to a sequence has more than one item, and no item is a sequence. -/
theorem Parse.items_of_expression_gives {finish : Position} {ts rest : List Token} {inMatrix : Bool} {line : Int}
    {items : List Expr} (h : (expression finish inMatrix ts).Gives (.sequence line items) rest) :
    2 ≤ items.length ∧ ∀ i ∈ items, ∀ l es, i ≠ .sequence l es := by
  obtain ⟨d, -, -, heq⟩ := expression_gives_iff.1 h
  have hitems := d.ne_sequence_of_mem_postorder
  match hes : d.postorder with
  | [] => exact absurd hes d.postorder_ne_nil
  | [e] =>
      rw [hes, Expr.ofItems] at heq
      exact absurd heq.symm (hitems e (by simp [hes]) line items)
  | e :: e' :: es =>
      rw [hes] at heq hitems
      cases heq
      exact ⟨by simp, hitems⟩

/-- Reading or assigning a variable does not update `ans`. -/
theorem ExprTree.storesAns_ofItems {t : ExprTree} {n : String} (h : t.referent? = some n)
    (hitem : ∀ l i, Expr.ofItems t.line t.postorder ≠ .sequence l [i]) :
    (Expr.ofItems t.line t.postorder).storesAns = false := by
  have hnode : ∀ (l : Int) (op : Operator) (left right : ExprTree) (l' : Int),
      (node l op left right).referent? = some n →
      (Expr.sequence l' (node l op left right).postorder).storesAns = false := by
    intro l op left right l' h
    rw [referent?] at h
    split at h
    · next hop => simp [Expr.storesAns, Expr.assigns, postorder, hop, Expr.isAssign]
    · cases h
  cases t with
  | number l x => cases h
  | literal l rows => cases h
  | name l m => rfl
  | node l op left right =>
      rw [Expr.ofItems_of_two_le (two_le_length_postorder_node l op left right)]
      exact hnode l op left right _ h
  | grouped l t =>
      cases t with
      | number l' x => cases h
      | literal l' rows => cases h
      | name l' m => exact absurd (by rw [postorder, postorder]; rfl) (hitem l (.name l' m))
      | grouped l' t => exact absurd (by rw [postorder, postorder]; rfl) (hitem l (.sequence l' t.postorder))
      | node l' op left right => exact hnode l' op left right l h

namespace Parse.Obtained

variable {src : String} {s : Statement}

theorem storesAns_eq (h : Obtained src s) : s.storesAns = s.expr.storesAns := by
  obtain ⟨finish, start, rest, hs⟩ := h.exists_gives
  obtain ⟨e, rest', prints, -, rfl⟩ := exists_expression_of_statement_gives hs
  rfl

/-- Reading or assigning a variable does not update `ans`. -/
theorem storesAns_of_referent? (h : Obtained src s) {t : ExprTree}
    (hexpr : Expr.ofItems t.line t.postorder = s.expr) {n : String} (hn : t.referent? = some n) :
    s.storesAns = false := by
  obtain ⟨finish, start, rest, hs⟩ := h.exists_gives
  obtain ⟨e, rest', prints, he, rfl⟩ := exists_expression_of_statement_gives hs
  have hexpr : Expr.ofItems t.line t.postorder = e := hexpr
  have hitem : ∀ l i, Expr.ofItems t.line t.postorder ≠ .sequence l [i] := by
    rintro l i heq
    rw [← hexpr, heq] at he
    have hlength := (items_of_expression_gives he).1
    simp at hlength
  have hstores := t.storesAns_ofItems hn hitem
  rw [hexpr] at hstores
  exact hstores

/-- An assignment that is not among the items of a statement stands in a cell of a literal. -/
theorem cell_of_assigns_eq_false (h : Obtained src s) (hassigns : s.expr.assigns = false) {l : Int}
    (hwithin : (Expr.operator l .assign).Within s.expr) :
    ∃ line rows, (Expr.matrix line rows).Within s.expr ∧
      ∃ row ∈ rows, ∃ cell ∈ row, (Expr.operator l .assign).Within cell := by
  obtain ⟨finish, start, rest, hs⟩ := h.exists_gives
  obtain ⟨e, rest', prints, he, rfl⟩ := exists_expression_of_statement_gives hs
  change (Expr.operator l .assign).Within e at hwithin
  change e.assigns = false at hassigns
  show ∃ line rows, (Expr.matrix line rows).Within e ∧ _
  cases hwithin with
  | self => cases hassigns
  | cell hr hc hcell => exact ⟨_, _, .self _, _, hr, _, hc, hcell⟩
  | item hi hitem =>
      cases hitem with
      | self =>
          rw [Expr.assigns, List.any_eq_false] at hassigns
          exact absurd rfl (hassigns _ hi)
      | cell hr hc hcell => exact ⟨_, _, .item hi (.self _), _, hr, _, hc, hcell⟩
      | item => exact absurd rfl ((items_of_expression_gives he).2 _ hi _ _)

end Parse.Obtained

/-! ### Statements with assignments -/

/-- A statement with assignments stores its value unless one of them is among its items. -/
theorem Expr.Within.storesAns_eq {l : Int} {e : Expr} (h : (operator l .assign).Within e) :
    e.storesAns = !e.assigns := by
  cases h with
  | self | cell | item => rfl

namespace Statement

/-- **What statements with assignments do to `ans`**, if that is not their target.  If an assignment is among the
items of the expression, `ans` remains as it is.  If all of them stand in cells of literals, the value is stored in
`ans`, and shown under this name. -/
theorem ans_of_assign_within {src : String} {s : Statement} (h : Parse.Obtained src s) {l : Int}
    (hwithin : (Expr.operator l .assign).Within s.expr) (htarget : ansName ∉ s.expr.targets) (c : Context)
    (env : Env (Value Float)) {a : Answer} (hok : (s.evaluate c env).result = .ok a) :
    (s.expr.assigns = true →
      (s.evaluate c env).env.inner.get? ansName = env.inner.get? ansName ∧
        (s.evaluate c env).env.get? ansName = env.get? ansName) ∧
    (s.expr.assigns = false →
      (∃ line rows, (Expr.matrix line rows).Within s.expr ∧
        ∃ row ∈ rows, ∃ cell ∈ row, (Expr.operator l .assign).Within cell) ∧
      a.name = some ansName ∧ (s.evaluate c env).env.get? ansName = some a.value) := by
  obtain ⟨finish, start, rest, hs⟩ := h.exists_gives
  obtain ⟨t, -, ht⟩ := Parse.exists_tree_of_statement_gives hs
  have hframe := frame_of_evaluate ht hok
  constructor
  · intro hassigns
    have hstores : s.storesAns = false := by
      rw [h.storesAns_eq, hwithin.storesAns_eq, hassigns, Bool.not_true]
    refine hframe.kept ansName (fun ha => htarget ?_) ?_
    · rw [← ht]
      exact (t.mem_targets_ofItems t.line).2 ha
    · rintro ⟨-, htrue, -⟩
      rw [hstores] at htrue
      cases htrue
  · intro hassigns
    have hstores : s.storesAns = true := by
      rw [h.storesAns_eq, hwithin.storesAns_eq, hassigns, Bool.not_false]
    have hnone : t.referent? = none := by
      rw [Option.eq_none_iff_forall_ne_some]
      intro n hn
      rw [h.storesAns_of_referent? ht hn] at hstores
      cases hstores
    have hname : a.name = some ansName := by
      rw [hframe.name, hnone, hstores, Option.none_or, if_pos rfl]
    exact ⟨h.cell_of_assigns_eq_false hassigns hwithin, hname, hframe.shown ansName hname⟩

/-- The statement of the text `[x=y]`. -/
theorem source_assign_cell : Parse.source "[x=y]" = .ok
    [⟨.matrix 1 [[.sequence 1 [.name 1 "x", .name 1 "y", .operator 1 .assign]]], true, true, 1⟩] := by
  set_option maxRecDepth 100000 in cbv

/-- The assignment of the text `[x=y]` stands in a cell. -/
theorem assign_within_cell : (Expr.operator 1 .assign).Within
    (.matrix 1 [[.sequence 1 [.name 1 "x", .name 1 "y", .operator 1 .assign]]]) :=
  .cell (List.mem_singleton_self _) (List.mem_singleton_self _) (.item (by simp) (.self _))

/-- The statement of the text `y+(x=y)`. -/
theorem source_assign_item : Parse.source "y+(x=y)" = .ok
    [⟨.sequence 1 [.name 1 "y", .name 1 "x", .name 1 "y", .operator 1 .assign, .operator 1 .add], false, true,
      1⟩] := by
  set_option maxRecDepth 100000 in cbv

/-- The assignment of the text `y+(x=y)` is an item. -/
theorem assign_within_item : (Expr.operator 1 .assign).Within
    (.sequence 1 [.name 1 "y", .name 1 "x", .name 1 "y", .operator 1 .assign, .operator 1 .add]) :=
  .item (by simp) (.self _)

/-- An environment in which `ans` is seven and `y` is one. -/
def sevenAndOne : Env (Value Float) := (Env.empty.set ansName (.scalar 7)).set "y" (.scalar 1)

/-- The texts `[x=y]` and `y+(x=y)`: the first one stores its value in `ans`, the second one does not. -/
theorem ans_of_assign_within_each :
    (∃ (s : Statement) (a : Answer), Parse.Obtained "[x=y]" s ∧ (Expr.operator 1 .assign).Within s.expr ∧
      ansName ∉ s.expr.targets ∧ (s.evaluate .usual sevenAndOne).result = .ok a ∧ a.name = some ansName ∧
      (s.evaluate .usual sevenAndOne).env.get? ansName = some a.value) ∧
    ∃ (s : Statement) (a : Answer), Parse.Obtained "y+(x=y)" s ∧ (Expr.operator 1 .assign).Within s.expr ∧
      ansName ∉ s.expr.targets ∧ (s.evaluate .usual sevenAndOne).result = .ok a ∧ s.expr.assigns = true ∧
      (s.evaluate .usual sevenAndOne).env.get? ansName = some (.scalar 7) := by
  constructor
  · have hobtained : Parse.Obtained "[x=y]" _ := .inl ⟨_, source_assign_cell, List.mem_singleton_self _⟩
    have htarget : ansName ∉ Expr.targets
        (.matrix 1 [[.sequence 1 [.name 1 "x", .name 1 "y", .operator 1 .assign]]]) := by decide
    refine ⟨_, ⟨some ansName, .scalar 1⟩, hobtained, assign_within_cell, htarget, rfl, ?_⟩
    exact ((ans_of_assign_within hobtained assign_within_cell htarget .usual _ rfl).2 rfl).2
  · have hobtained : Parse.Obtained "y+(x=y)" _ := .inl ⟨_, source_assign_item, List.mem_singleton_self _⟩
    have htarget : ansName ∉ Expr.targets
        (.sequence 1 [.name 1 "y", .name 1 "x", .name 1 "y", .operator 1 .assign, .operator 1 .add]) := by decide
    refine ⟨_, ⟨none, .scalar (1 + 1)⟩, hobtained, assign_within_item, htarget, rfl, rfl, ?_⟩
    exact ((ans_of_assign_within hobtained assign_within_item htarget .usual sevenAndOne rfl).1 rfl).2

/-- The text `[x=y]` assigns nothing but `x`, and yet `ans` has another value behind it. -/
theorem ans_ne_of_assign_within :
    ∃ (s : Statement) (env : Env (Value Float)) (a : Answer), Parse.Obtained "[x=y]" s ∧
      (Expr.operator 1 .assign).Within s.expr ∧ ansName ∉ s.expr.targets ∧
      (s.evaluate .usual env).result = .ok a ∧
      (s.evaluate .usual env).env.get? ansName ≠ env.get? ansName := by
  have hobtained : Parse.Obtained "[x=y]" _ := .inl ⟨_, source_assign_cell, List.mem_singleton_self _⟩
  refine ⟨_, sevenAndOne, ⟨some ansName, .scalar 1⟩, hobtained, assign_within_cell, by decide, rfl, ?_⟩
  intro h
  have hvalue : some (Value.scalar (1 : Float)) = some (.scalar 7) := h
  injection hvalue with hvalue
  injection hvalue with hvalue
  have hbeq : ((1 : Float) == 7) = true := by
    rw [hvalue]
    decide
  exact absurd hbeq (by decide)

end Statement

end MatrixCalc
