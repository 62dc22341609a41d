/-
**What the parser of expressions reads.**

The parser keeps the items that are in order and the operators that wait.  Both can be read off a
derivation on its way: the items are those of the trees it holds, in order, and the operators that wait
are the ones behind these trees.  With that the parser and the derivation do the same at each terminal.
So the parser succeeds on the tokens of derivation trees and on no others, and its result lists the
operands and operators of the tree in the order of evaluation.

Main definitions:

* `MatrixCalc.Parse.Pending.read?`, `MatrixCalc.Parse.Pending.readAll?` — what terminals do to the
  parser;
* `MatrixCalc.Grammar.Partial.pending` — the state of the parser for a derivation on its way;
* `MatrixCalc.Expr.inOrder` — an expression as items in the order of evaluation;
* `MatrixCalc.Parse.ParsesTo` — what the parser does from one place in a text to another.

Main results:

* `MatrixCalc.Parse.expressionFrom_gives_iff` — the parser, terminal by terminal;
* `MatrixCalc.Grammar.Partial.pending_read?` — the parser and the derivation agree at each terminal;
* `MatrixCalc.Parse.parsesTo_grammar` — **the parser accepts the grammar, with the only tree**.
-/

import MatrixCalc.Proofs.Grammar.Partial

set_option autoImplicit false

namespace MatrixCalc

open Grammar

variable {finish : Position}

namespace Parse

/-! ### The parser, terminal by terminal -/

namespace Pending

/-- The state behind a terminal, if it may stand there. -/
def read? (s : Pending) : Terminal finish → Option Pending
  | .leaf l => if s.afterOperand then none else some (s.pushOperand l.item)
  | .product o | .sum o | .assign o =>
      if s.afterOperand then some (s.pushOperator o.token.position.line o.op) else none
  | .openParen p => if s.afterOperand then none else some (s.openParen p.token)
  | .closeParen _ => if s.afterOperand then s.closeParen? else none

/-- The state behind several terminals. -/
def readAll? (s : Pending) (xs : List (Terminal finish)) : Option Pending := xs.foldlM read? s

@[simp] theorem readAll?_nil (s : Pending) : s.readAll? ([] : List (Terminal finish)) = some s := rfl

theorem readAll?_cons (s : Pending) (x : Terminal finish) (xs : List (Terminal finish)) :
    s.readAll? (x :: xs) = (s.read? x).bind fun s' => s'.readAll? xs := by
  simp only [readAll?, List.foldlM_cons]
  rfl

/-- A token that changes the state is a terminal. -/
theorem exists_read?_of_token? {s s' : Pending} {t : Token} (h : s.token? t = some s') :
    ∃ x : Terminal finish, x.tokens = [t] ∧ s.read? x = some s' := by
  cases hk : t.kind with
  | number v =>
      simp only [token?, hk] at h
      exact ⟨.leaf (.number t v hk), rfl, h⟩
  | name =>
      simp only [token?, hk] at h
      exact ⟨.leaf (.name t hk), rfl, h⟩
  | operator op =>
      simp only [token?, hk] at h
      cases op with
      | add | subtract => exact ⟨.sum ⟨t, _, hk, by decide⟩, rfl, h⟩
      | multiply | divide => exact ⟨.product ⟨t, _, hk, by decide⟩, rfl, h⟩
      | assign => exact ⟨.assign ⟨t, _, hk, by decide⟩, rfl, h⟩
  | openParen =>
      simp only [token?, hk] at h
      exact ⟨.openParen ⟨t, hk⟩, rfl, h⟩
  | closeParen =>
      simp only [token?, hk] at h
      exact ⟨.closeParen ⟨t, hk⟩, rfl, h⟩
  | _ => simp [token?, hk] at h

/-- What a terminal does is what its token does, or it is a literal. -/
theorem token?_of_read? {s s' : Pending} {x : Terminal finish} (h : s.read? x = some s') :
    (∃ t, x.tokens = [t] ∧ s.token? t = some s') ∨
      ∃ t body rows, x.tokens = t :: body ∧ t.kind = .openBracket ∧ s.afterOperand = false ∧
        (∀ rest, (matrixBody finish (body ++ rest)).Gives rows rest) ∧
        s' = s.pushOperand (.matrix t.position.line rows) := by
  cases x with
  | leaf l =>
      cases l with
      | number t v hk | name t hk =>
          refine .inl ⟨t, rfl, ?_⟩
          rw [token?, hk]
          exact h
      | literal t body value hk hr =>
          obtain ⟨rows, rfl, hl⟩ := Leaf.rows_of_reads hr
          cases ho : s.afterOperand with
          | true => simp [read?, ho] at h
          | false =>
              simp only [read?, ho, Bool.false_eq_true, if_false, Option.some.injEq] at h
              exact .inr ⟨t, body, rows, rfl, hk, rfl, hl, h.symm⟩
  | product o | sum o | assign o =>
      refine .inl ⟨o.token, rfl, ?_⟩
      rw [token?, o.kind_eq]
      exact h
  | openParen p | closeParen p =>
      refine .inl ⟨p.token, rfl, ?_⟩
      rw [token?, p.kind_eq]
      exact h

end Pending

/-- Whether an expression may end before the tokens `ts`. -/
def EndsBefore (inMatrix : Bool) (ts : List Token) : Prop :=
  ∀ t ∈ ts.head?, t.kind.endsExpression inMatrix = true

/-- Behind a terminal the parser goes on from the state behind it. -/
theorem expressionFrom_gives_of_read? {line : Nat} {inMatrix : Bool} {n : Nat} {s s' : Pending}
    {x : Terminal finish} {ts rest : List Token} {e : Expr} (hx : s.read? x = some s')
    (h : ∀ hn ha, (expressionFrom finish line inMatrix n s' ts hn ha).Gives e rest)
    (hn : (x.tokens ++ ts).length ≤ n)
    (ha : s.afterOperand = true → (x.tokens ++ ts).length < n) :
    (expressionFrom finish line inMatrix n s (x.tokens ++ ts) hn ha).Gives e rest := by
  rcases Pending.token?_of_read? hx with ⟨t, ht, hs⟩ | ⟨t, body, rows, ht, hk, ho, hr, rfl⟩
  · -- a terminal of one token
    simp only [ht, List.cons_append, List.nil_append]
    exact expressionFrom_cons_gives.2 (.inr (.inl ⟨s', hs, h _ _⟩))
  · -- a literal: its rows are read first, and what comes behind them does not matter
    simp only [ht, List.cons_append, List.length_cons, List.length_append] at hn ⊢
    have hlt : ts.length < n := by omega
    exact expressionFrom_cons_gives.2
      (.inr (.inr ⟨hk, ho, rows, ts, hr ts, Nat.le_of_lt hlt, fun _ => hlt, h _ _⟩))

theorem expressionFrom_gives_of_readAll? {line : Nat} {inMatrix : Bool} {n : Nat}
    {s s' : Pending} {xs : List (Terminal finish)} {rest : List Token} {e : Expr}
    (hx : s.readAll? xs = some s') (hc : s'.Closes line e) (he : EndsBefore inMatrix rest) :
    ∀ hn ha, (expressionFrom finish line inMatrix n s (xs.flatMap Terminal.tokens ++ rest)
      hn ha).Gives e rest := by
  induction xs generalizing s with
  | nil =>
      cases hx
      intro hn ha
      cases rest with
      | nil => exact expressionFrom_nil_gives.2 ⟨hc, rfl⟩
      | cons t rest => exact expressionFrom_cons_gives.2 (.inl ⟨hc, he t rfl, rfl⟩)
  | cons x xs ih =>
      rw [Pending.readAll?_cons, Option.bind_eq_some_iff] at hx
      obtain ⟨s₁, hs, hx⟩ := hx
      simp only [List.flatMap_cons, List.append_assoc]
      exact expressionFrom_gives_of_read? hs (ih hx)

/-- What the parser reads are terminals, by induction on a bound of the number of tokens. -/
theorem exists_readAll?_of_gives {line : Nat} {inMatrix : Bool} {n : Nat} {e : Expr}
    {rest : List Token} (k : Nat) :
    ∀ {ts : List Token} {s : Pending} {hn ha}, ts.length ≤ k →
      (expressionFrom finish line inMatrix n s ts hn ha).Gives e rest →
      ∃ (xs : List (Terminal finish)) (s' : Pending), ts = xs.flatMap Terminal.tokens ++ rest ∧
        s.readAll? xs = some s' ∧ s'.Closes line e ∧ EndsBefore inMatrix rest := by
  induction k with
  | zero =>
      intro ts s hn ha hk h
      obtain rfl := List.eq_nil_of_length_eq_zero (Nat.le_zero.1 hk)
      obtain ⟨hc, rfl⟩ := expressionFrom_nil_gives.1 h
      exact ⟨[], s, rfl, rfl, hc, by simp [EndsBefore]⟩
  | succ k ih =>
      intro ts s hn ha hk h
      cases ts with
      | nil =>
          obtain ⟨hc, rfl⟩ := expressionFrom_nil_gives.1 h
          exact ⟨[], s, rfl, rfl, hc, by simp [EndsBefore]⟩
      | cons t ts =>
          have hk' : ts.length ≤ k := Nat.le_of_succ_le_succ hk
          rcases expressionFrom_cons_gives.1 h with
            ⟨hc, he, rfl⟩ | ⟨s', ht, h⟩ | ⟨ht, ho, rows, ts', hm, hn', ha', h⟩
          · -- the expression ends before the token
            exact ⟨[], s, rfl, rfl, hc, by simpa [EndsBefore] using he⟩
          · -- the token is a terminal
            obtain ⟨x, hx, hs⟩ := @Pending.exists_read?_of_token? finish _ _ _ ht
            obtain ⟨xs, s'', rfl, hr, hc, he⟩ := ih hk' h
            refine ⟨x :: xs, s'', by simp [hx], ?_, hc, he⟩
            rw [Pending.readAll?_cons, hs, Option.bind_some, hr]
          · -- the token opens a literal, which is one terminal together with its rows
            have hlength := Nat.le_trans (Nat.le_of_lt hm.length_lt) hk'
            obtain ⟨xs, s'', rfl, hr, hc, he⟩ := ih hlength h
            obtain ⟨body, rfl, hb⟩ := matrixBody_split hm
            have hl : (matrix finish (t :: body)).Gives (.matrix t.position.line rows) [] :=
              matrix_cons_gives.2 ⟨rows, hb, rfl⟩
            refine ⟨.leaf (.literal t body _ ht hl) :: xs, s'', by simp [Terminal.tokens, Leaf.tokens],
              ?_, hc, he⟩
            simp only [Pending.readAll?_cons, Pending.read?, ho, Leaf.item, Bool.false_eq_true,
              if_false, Option.bind_some, hr]

/-- **The parser, terminal by terminal.** -/
theorem expressionFrom_gives_iff {line : Nat} {inMatrix : Bool} {n : Nat} {s : Pending}
    {ts rest : List Token} {hn ha} {e : Expr} :
    (expressionFrom finish line inMatrix n s ts hn ha).Gives e rest ↔
      ∃ (xs : List (Terminal finish)) (s' : Pending), ts = xs.flatMap Terminal.tokens ++ rest ∧
        s.readAll? xs = some s' ∧ s'.Closes line e ∧ EndsBefore inMatrix rest := by
  constructor
  · exact exists_readAll?_of_gives ts.length (Nat.le_refl _)
  · rintro ⟨xs, s', rfl, hr, hc, he⟩
    exact expressionFrom_gives_of_readAll? hr hc he _ _

end Parse

/-! ### The state of the parser for a derivation on its way -/

namespace Grammar

/-- An operator as one that waits. -/
def Sign.waiting {ops : List Operator} (o : Sign ops) : Parse.Waiting := (o.token.position.line, o.op)

@[simp] theorem Sign.toExpr_waiting {ops : List Operator} (o : Sign ops) :
    o.waiting.toExpr = o.item := rfl

/-- An operator of a product waits only for operators that are not applied before it. -/
theorem ProductSign.precedence_eq (o : ProductSign) :
    o.op.precedence = 3 ∧ o.op.groupsRight = false := by
  have hm := o.mem
  generalize o.op = op at hm
  revert op
  decide

theorem SumSign.precedence_eq (o : SumSign) : o.op.precedence = 2 ∧ o.op.groupsRight = false := by
  have hm := o.mem
  generalize o.op = op at hm
  revert op
  decide

theorem AssignSign.precedence_eq (o : AssignSign) :
    o.op.precedence = 1 ∧ o.op.groupsRight = true := by
  have hm := o.mem
  generalize o.op = op at hm
  revert op
  decide

namespace Front

/-- The items of the trees, in order. -/
def items (f : Front finish) : List Expr :=
  f.assigned.reverse.flatMap (fun p => p.1.postorder) ++ (f.sum?.elim [] fun p => p.1.postorder) ++
    (f.product?.elim [] fun p => p.1.postorder)

/-- The operators behind the trees, the last one first. -/
def waiting (f : Front finish) : List Parse.Waiting :=
  (f.product?.elim [] fun p => [p.2.waiting]) ++ (f.sum?.elim [] fun p => [p.2.waiting]) ++
    f.assigned.map fun p => p.2.waiting

theorem postorder_assignAll (ps : List (Tree finish .sum × AssignSign)) (t : Tree finish .assign) :
    (assignAll ps t).postorder = ps.reverse.flatMap (fun p => p.1.postorder) ++ t.postorder ++
      ps.map fun p => p.2.item := by
  induction ps generalizing t with
  | nil => simp [assignAll]
  | cons p ps ih =>
      have h := ih (.assign p.1 p.2 t)
      simp only [assignAll, List.foldl_cons] at h ⊢
      rw [h]
      simp [Tree.postorder]

theorem postorder_product (f : Front finish) (a : Tree finish .atom) :
    (f.product a).postorder = (f.product?.elim [] fun p => p.1.postorder) ++ a.postorder ++
      f.product?.elim [] fun p => [p.2.item] := by
  cases h : f.product? <;> simp [product, h, Tree.postorder]

theorem postorder_sum (f : Front finish) (a : Tree finish .atom) :
    (f.sum a).postorder = (f.sum?.elim [] fun p => p.1.postorder) ++ (f.product a).postorder ++
      f.sum?.elim [] fun p => [p.2.item] := by
  cases h : f.sum? <;> simp [sum, h, Tree.postorder]

/-- At the end of an expression all operators that wait go to the output. -/
theorem flush_items (f : Front finish) (a : Tree finish .atom) (output : List Expr) :
    Parse.flush (a.postorder.reverse ++ (f.items.reverse ++ output)) f.waiting =
      (f.whole a).postorder.reverse ++ output := by
  cases hp : f.product? <;> cases hs : f.sum? <;>
    simp [whole, postorder_assignAll, Tree.postorder, postorder_sum, postorder_product, items, waiting,
      Parse.flush, hp, hs]

end Front

namespace Partial

/-- The items of the trees, in order. -/
def items (d : Partial finish) : List Expr :=
  d.enclosing.reverse.flatMap (fun p => p.2.items) ++ d.front.items ++
    d.operand?.elim [] Tree.postorder

/-- The state of the parser. -/
def pending (d : Partial finish) : Parse.Pending where
  output := d.items.reverse
  waiting := d.front.waiting
  enclosing := d.enclosing.map fun p => (p.1.token, p.2.waiting)
  afterOperand := d.operand?.isSome

@[simp] theorem pending_start (finish : Position) :
    (start : Partial finish).pending = Parse.Pending.start := rfl

/-- **The parser and the derivation agree at each terminal.** -/
theorem pending_read? (d : Partial finish) (x : Terminal finish) :
    d.pending.read? x = (d.read? x).map pending := by
  obtain ⟨enclosing, ⟨assigned, sum?, product?⟩, operand?⟩ := d
  cases x with
  | leaf l | openParen p =>
      cases operand? <;>
        simp [Parse.Pending.read?, read?, pending, Parse.Pending.pushOperand, Parse.Pending.openParen,
          items, Front.items, Front.waiting, Front.empty, Tree.postorder]
  | product o | sum o | assign o =>
      cases operand? with
      | none => simp [Parse.Pending.read?, read?, pending]
      | some a =>
          -- which operators wait: they are applied before `o` or not, by their precedence
          cases product? <;> cases sum? <;> cases assigned <;>
            simp [Parse.Pending.read?, read?, Parse.Pending.pushOperator, pending, items, Front.items,
              Front.waiting, Front.pushProduct, Front.pushSum, Front.pushAssign, Front.postorder_sum,
              Front.postorder_product, Operator.appliesBefore, Sign.waiting, Parse.flush,
              ProductSign.precedence_eq, SumSign.precedence_eq, AssignSign.precedence_eq, Sign.item,
              Parse.Waiting.toExpr]
  | closeParen q =>
      cases operand? with
      | none => simp [Parse.Pending.read?, read?, pending]
      | some a =>
          cases enclosing with
          | nil => simp [Parse.Pending.read?, read?, pending, Parse.Pending.closeParen?]
          | cons p enclosing =>
              -- all operators that wait inside of the parentheses go to the output
              have hf := Front.flush_items ⟨assigned, sum?, product?⟩ a
                ((enclosing.reverse.flatMap fun p => p.2.items) ++ p.2.items).reverse
              simp only [Parse.Pending.read?, read?, pending, Parse.Pending.closeParen?, items]
              simpa [pending, items, Tree.postorder] using hf

theorem pending_readAll? (d : Partial finish) (xs : List (Terminal finish)) :
    d.pending.readAll? xs = (d.readAll? xs).map pending := by
  induction xs generalizing d with
  | nil => rfl
  | cons x xs ih =>
      rw [Parse.Pending.readAll?_cons, pending_read?, readAll?_cons]
      cases d.read? x with
      | none => rfl
      | some d' => exact ih d'

/-- An expression may end where a derivation is read to its end, and then lists what its tree does. -/
theorem closes_pending_iff {d : Partial finish} {line : Nat} {e : Expr} :
    d.pending.Closes line e ↔ ∃ t, d.Finished t ∧ e = Expr.ofItems line t.postorder := by
  obtain ⟨enclosing, front, operand?⟩ := d
  cases enclosing with
  | cons p enclosing => simp [Parse.Pending.Closes, pending, Finished]
  | nil =>
      cases operand? with
      | none => simp [Parse.Pending.Closes, pending, Finished]
      | some a =>
          have hf := front.flush_items a []
          simp only [List.append_nil] at hf
          simp [Parse.Pending.Closes, pending, Finished, items, hf]

end Partial

end Grammar

/-! ### Expressions as items -/

/-- An expression as items in the order of evaluation. -/
def Expr.inOrder : Expr → List Expr
  | .sequence _ items => items
  | e => [e]

namespace Grammar

/-- No item of a tree is a sequence. -/
theorem Tree.inOrder_of_mem_postorder {v : Level} {t : Tree finish v} {e : Expr}
    (h : e ∈ t.postorder) : e.inOrder = [e] := by
  induction t with
  | leaf l =>
      obtain rfl := List.mem_singleton.1 h
      cases l with
      | number t v hk | name t hk => rfl
      | literal t body value hk hr =>
          obtain ⟨rows, rfl, -⟩ := Leaf.rows_of_reads hr
          rfl
  | paren p inner q ih => exact ih h
  | ofAtom a ih | ofProduct a ih | ofSum a ih => exact ih h
  | product l o r ihl ihr | sum l o r ihl ihr | assign l o r ihl ihr =>
      simp only [postorder, List.mem_append, List.mem_singleton] at h
      rcases h with (h | h) | rfl
      · exact ihl h
      · exact ihr h
      · rfl

/-- A tree has tokens. -/
theorem Tree.tokens_ne_nil (t : Tree finish .assign) : t.tokens ≠ [] := by
  intro h
  obtain ⟨d, hr, -, a, ha, -⟩ := t.finished_readAll?
  have hx : t.terminals = [] := by
    apply terminals_injective
    exact h
  rw [hx, Partial.readAll?_nil] at hr
  cases hr
  cases ha

/-- The items of a tree as one expression are the items of the tree. -/
theorem Tree.inOrder_ofItems {v : Level} (t : Tree finish v) (line : Nat) :
    (Expr.ofItems line t.postorder).inOrder = t.postorder := by
  generalize hp : t.postorder = items
  match items, hp with
  | [], _ => rfl
  | [e], hp =>
      have he : e ∈ t.postorder := by simp [hp]
      exact Tree.inOrder_of_mem_postorder he
  | _ :: _ :: _, _ => rfl

end Grammar

namespace Parse

/-! ### The grammar -/

/-- From the token `i` of a text on the parser reads the expression `e` and stops before the token `j`;
the index behind all tokens is the end of the text. -/
def ParsesTo (source : Tokens) (inMatrix : Bool) (i : Nat) (e : Expr) (j : Nat) : Prop :=
  j ≤ source.list.length ∧
    (expression source.finish inMatrix (source.list.drop i)).Gives e (source.list.drop j)

/-- The parser reads the tokens of derivation trees, before tokens that end an expression. -/
theorem expression_gives_iff {inMatrix : Bool} {ts rest : List Token} {e : Expr} :
    (expression finish inMatrix ts).Gives e rest ↔
      ∃ t : Tree finish .assign, ts = t.tokens ++ rest ∧ EndsBefore inMatrix rest ∧
        e = Expr.ofItems (positionOf finish ts).line t.postorder := by
  constructor
  · intro h
    obtain ⟨xs, s, rfl, hr, hc, he⟩ := expressionFrom_gives_iff.1 h
    rw [← Partial.pending_start finish, Partial.pending_readAll?,
      Option.map_eq_some_iff] at hr
    obtain ⟨d, hd, rfl⟩ := hr
    obtain ⟨t, ht, rfl⟩ := Partial.closes_pending_iff.1 hc
    refine ⟨t, ?_, he, rfl⟩
    rw [Tree.tokens, ht.terminals_eq, Partial.terminals_readAll? hd, Partial.terminals_start,
      List.nil_append]
  · rintro ⟨t, rfl, he, rfl⟩
    obtain ⟨d, hd, ht⟩ := t.finished_readAll?
    refine expressionFrom_gives_iff.2 ⟨t.terminals, d.pending, rfl, ?_,
      Partial.closes_pending_iff.2 ⟨t, ht, rfl⟩, he⟩
    rw [← Partial.pending_start finish, Partial.pending_readAll?, hd, Option.map_some]

/-- The tokens between two places, if what is behind the second is behind the first as well. -/
theorem eq_take_drop_of_drop_eq {l span : List Token} {i j : Nat} (hj : j ≤ l.length)
    (h : l.drop i = span ++ l.drop j) : span = (l.take j).drop i := by
  have hl := congrArg List.length h
  simp only [List.length_append, List.length_drop] at hl
  have hs : span.length = j - i := by omega
  rw [List.drop_take, h, ← hs, List.take_left]

theorem drop_eq_of_take_drop_eq {l span : List Token} {i j : Nat} (hs : span ≠ [])
    (h : span = (l.take j).drop i) : l.drop i = span ++ l.drop j := by
  have hi : i ≤ (l.take j).length :=
    Nat.le_of_not_lt fun hi => hs (h.trans (List.drop_eq_nil_of_le (Nat.le_of_lt hi)))
  rw [h, ← List.drop_append_of_le_length hi, List.take_append_drop]

/-- **The parser accepts the grammar, with the only tree.**  Where it succeeds, the tokens that it reads
have a derivation tree, which is the only one, and the result lists its operands and operators in
postorder.  It succeeds on the tokens of every tree before a token that may end an expression. -/
theorem parsesTo_grammar (source : Tokens) (inMatrix : Bool) (i : Nat) :
    (∀ e j, ParsesTo source inMatrix i e j →
      ∃ t : Tree source.finish .assign, t.tokens = (source.list.take j).drop i ∧
        (∀ t' : Tree source.finish .assign, t'.tokens = (source.list.take j).drop i → t' = t) ∧
        e.inOrder = t.postorder) ∧
    ∀ (t : Tree source.finish .assign) (k : Nat), k ≤ source.list.length →
      t.tokens = (source.list.take k).drop i → EndsBefore inMatrix (source.list.drop k) →
      ∃ e, ParsesTo source inMatrix i e k := by
  constructor
  · rintro e j ⟨hj, h⟩
    obtain ⟨t, hd, -, rfl⟩ := expression_gives_iff.1 h
    have ht := eq_take_drop_of_drop_eq hj hd
    exact ⟨t, ht, fun t' ht' => Tree.eq_of_tokens_eq (ht'.trans ht.symm), t.inOrder_ofItems _⟩
  · intro t k hk ht he
    exact ⟨_, hk, expression_gives_iff.2 ⟨t, drop_eq_of_take_drop_eq t.tokens_ne_nil ht, he, rfl⟩⟩

end Parse

end MatrixCalc
