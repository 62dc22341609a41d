/-
**The grammar of expressions.**

```
Assign  -> Sum | Sum '=' Assign
Sum     -> Product | Sum ('+' | '-') Product
Product -> Atom | Product ('*' | '/') Atom
Atom    -> number | name | literal | '(' Assign ')'
```

A derivation tree has a constructor for each production, and its type says from which nonterminal it is
derived.  Its leaves are terminals: a matrix literal is one terminal of several tokens, which are those
that the parser of literals reads.

Main definitions:

* `MatrixCalc.Grammar.Level`, `MatrixCalc.Grammar.Tree` — the nonterminals and the derivation trees;
* `MatrixCalc.Grammar.Leaf`, `MatrixCalc.Grammar.Terminal` — operands and terminals;
* `MatrixCalc.Grammar.Tree.tokens` — the tokens that are derived;
* `MatrixCalc.Grammar.Tree.postorder` — operands and operators, each operator behind its operands.

Main results:

* `MatrixCalc.Grammar.terminals_injective` — tokens are cut into terminals in one way only.
-/

import MatrixCalc.Proofs.Parse.Locality

set_option autoImplicit false

namespace MatrixCalc

namespace Grammar

/-! ### Terminals -/

/-- An operator token, of one of the operators `ops`. -/
structure Sign (ops : List Operator) where
  token : Token
  op : Operator
  /-- The token is that of the operator. -/
  kind_eq : token.kind = .operator op
  /-- The operator is one of those allowed. -/
  mem : op ∈ ops

/-- A token of the kind `k`. -/
structure Mark (k : Token.Kind) where
  token : Token
  kind_eq : token.kind = k

/-- An operator of a product. -/
abbrev ProductSign : Type := Sign [.multiply, .divide]

/-- An operator of a sum. -/
abbrev SumSign : Type := Sign [.add, .subtract]

/-- An equality sign. -/
abbrev AssignSign : Type := Sign [.assign]

/-- An opening parenthesis. -/
abbrev OpenParen : Type := Mark .openParen

/-- A closing parenthesis. -/
abbrev CloseParen : Type := Mark .closeParen

/-- The operands that are no expressions in parentheses.  `finish` is the end of the text. -/
inductive Leaf (finish : Position) where
  | number (t : Token) (value : Decimal.Numeral) (kind_eq : t.kind = .number value)
  | name (t : Token) (kind_eq : t.kind = .name)
  /-- A matrix literal: a bracket and the tokens `body` that the parser of literals reads behind it. -/
  | literal (t : Token) (body : List Token) (value : Expr) (kind_eq : t.kind = .openBracket)
      (reads : (Parse.matrix finish (t :: body)).Gives value [])

/-- The terminals of the grammar. -/
inductive Terminal (finish : Position) where
  | leaf (l : Leaf finish)
  | product (o : ProductSign)
  | sum (o : SumSign)
  | assign (o : AssignSign)
  | openParen (p : OpenParen)
  | closeParen (p : CloseParen)

variable {finish : Position}

/-- The tokens of an operand. -/
def Leaf.tokens : Leaf finish → List Token
  | number t _ _ | name t _ => [t]
  | literal t body _ _ _ => t :: body

/-- An operand as an item of an expression. -/
def Leaf.item : Leaf finish → Expr
  | number t value _ => .number t.position.line value.toFloat
  | name t _ => .name t.position.line t.text
  | literal _ _ value _ _ => value

/-- An operator as an item of an expression. -/
def Sign.item {ops : List Operator} (o : Sign ops) : Expr := .operator o.token.position.line o.op

/-- The tokens of a terminal. -/
def Terminal.tokens : Terminal finish → List Token
  | leaf l => l.tokens
  | product o | sum o | assign o => [o.token]
  | openParen p | closeParen p => [p.token]

/-! ### Derivation trees -/

/-- The nonterminals. -/
inductive Level where
  /-- Sums, and assignments of them. -/
  | assign
  /-- Products, and sums of them. -/
  | sum
  /-- Atoms, and products of them. -/
  | product
  /-- Operands, and expressions in parentheses. -/
  | atom
  deriving DecidableEq, Repr

/-- The derivation trees from each nonterminal. -/
inductive Tree (finish : Position) : Level → Type where
  /-- `Atom -> number | name | literal`. -/
  | leaf (l : Leaf finish) : Tree finish .atom
  /-- `Atom -> '(' Assign ')'`. -/
  | paren (p : OpenParen) (inner : Tree finish .assign) (q : CloseParen) : Tree finish .atom
  /-- `Product -> Atom`. -/
  | ofAtom (a : Tree finish .atom) : Tree finish .product
  /-- `Product -> Product ('*' | '/') Atom`. -/
  | product (l : Tree finish .product) (o : ProductSign) (r : Tree finish .atom) :
      Tree finish .product
  /-- `Sum -> Product`. -/
  | ofProduct (p : Tree finish .product) : Tree finish .sum
  /-- `Sum -> Sum ('+' | '-') Product`. -/
  | sum (l : Tree finish .sum) (o : SumSign) (r : Tree finish .product) : Tree finish .sum
  /-- `Assign -> Sum`. -/
  | ofSum (s : Tree finish .sum) : Tree finish .assign
  /-- `Assign -> Sum '=' Assign`. -/
  | assign (l : Tree finish .sum) (o : AssignSign) (r : Tree finish .assign) : Tree finish .assign

namespace Tree

/-- The terminals of a tree, from the left. -/
def terminals : {v : Level} → Tree finish v → List (Terminal finish)
  | _, leaf l => [.leaf l]
  | _, paren p inner q => .openParen p :: (inner.terminals ++ [.closeParen q])
  | _, ofAtom a => a.terminals
  | _, product l o r => l.terminals ++ .product o :: r.terminals
  | _, ofProduct p => p.terminals
  | _, sum l o r => l.terminals ++ .sum o :: r.terminals
  | _, ofSum s => s.terminals
  | _, assign l o r => l.terminals ++ .assign o :: r.terminals

/-- The tokens that are derived. -/
def tokens {v : Level} (t : Tree finish v) : List Token := t.terminals.flatMap Terminal.tokens

/-- The operands and operators of a tree, each operator behind both of its operands. -/
def postorder : {v : Level} → Tree finish v → List Expr
  | _, leaf l => [l.item]
  | _, paren _ inner _ => inner.postorder
  | _, ofAtom a => a.postorder
  | _, product l o r => l.postorder ++ r.postorder ++ [o.item]
  | _, ofProduct p => p.postorder
  | _, sum l o r => l.postorder ++ r.postorder ++ [o.item]
  | _, ofSum s => s.postorder
  | _, assign l o r => l.postorder ++ r.postorder ++ [o.item]

end Tree

/-! ### Tokens make up terminals in one way -/

theorem Sign.eq_of_token_eq {ops : List Operator} {o o' : Sign ops} (h : o.token = o'.token) :
    o = o' := by
  obtain ⟨t, op, hk, hm⟩ := o
  obtain ⟨t', op', hk', hm'⟩ := o'
  cases h
  rw [hk] at hk'
  cases hk'
  rfl

theorem Mark.eq_of_token_eq {k : Token.Kind} {p p' : Mark k} (h : p.token = p'.token) : p = p' := by
  obtain ⟨t, hk⟩ := p
  obtain ⟨t', hk'⟩ := p'
  cases h
  rfl

/-- A literal before any tokens: its rows, and the tokens behind it. -/
theorem Leaf.rows_of_reads {t : Token} {body : List Token} {value : Expr}
    (h : (Parse.matrix finish (t :: body)).Gives value []) :
    ∃ rows, value = .matrix t.position.line rows ∧
      ∀ rest, (Parse.matrixBody finish (body ++ rest)).Gives rows rest := by
  obtain ⟨rows, hb, rfl⟩ := Parse.matrix_cons_gives.1 h
  exact ⟨rows, rfl, Parse.matrixBody_append hb⟩

/-- The same tokens start with one operand only. -/
theorem Leaf.eq_of_append_eq {l l' : Leaf finish} {ts ts' : List Token}
    (h : l.tokens ++ ts = l'.tokens ++ ts') : l = l' ∧ ts = ts' := by
  cases l with
  | number t v hk =>
      cases l' with
      | number t' v' hk' =>
          simp only [tokens, List.cons_append, List.nil_append, List.cons.injEq] at h
          obtain ⟨rfl, rfl⟩ := h
          cases hk.symm.trans hk'
          exact ⟨rfl, rfl⟩
      | name t' hk' | literal t' body' value' hk' hr' =>
          cases (List.cons.inj h).1
          cases hk.symm.trans hk'
  | name t hk =>
      cases l' with
      | name t' hk' =>
          simp only [tokens, List.cons_append, List.nil_append, List.cons.injEq] at h
          obtain ⟨rfl, rfl⟩ := h
          exact ⟨rfl, rfl⟩
      | number t' v' hk' | literal t' body' value' hk' hr' =>
          cases (List.cons.inj h).1
          cases hk.symm.trans hk'
  | literal t body value hk hr =>
      cases l' with
      | literal t' body' value' hk' hr' =>
          simp only [tokens, List.cons_append, List.cons.injEq] at h
          obtain ⟨rfl, h⟩ := h
          -- both literals are what the parser reads from the same tokens
          obtain ⟨rows, rfl, hl⟩ := rows_of_reads hr
          obtain ⟨rows', rfl, hl'⟩ := rows_of_reads hr'
          obtain ⟨rfl, rfl⟩ := (hl ts).unique (h ▸ hl' ts')
          cases List.append_cancel_right h
          exact ⟨rfl, rfl⟩
      | number t' v' hk' | name t' hk' =>
          cases (List.cons.inj h).1
          cases hk.symm.trans hk'

/-- The sorts of terminals. -/
inductive Terminal.Sort where
  | operand
  | product
  | sum
  | assign
  | openParen
  | closeParen
  deriving DecidableEq

/-- The sort of a terminal. -/
def Terminal.sort : Terminal finish → Terminal.Sort
  | leaf _ => .operand
  | product _ => .product
  | sum _ => .sum
  | assign _ => .assign
  | openParen _ => .openParen
  | closeParen _ => .closeParen

/-- The sort of the terminals that start with a token of a kind, if there are any. -/
def Terminal.sortOf? : Token.Kind → Option Terminal.Sort
  | .number _ | .name | .openBracket => some .operand
  | .operator .multiply | .operator .divide => some .product
  | .operator .add | .operator .subtract => some .sum
  | .operator .assign => some .assign
  | .openParen => some .openParen
  | .closeParen => some .closeParen
  | _ => none

/-- The first token of a terminal tells its sort. -/
theorem Terminal.exists_tokens_eq_cons (x : Terminal finish) :
    ∃ t us, x.tokens = t :: us ∧ sortOf? t.kind = some x.sort := by
  cases x with
  | leaf l =>
      cases l with
      | number t v hk | name t hk => exact ⟨t, [], rfl, by rw [hk]; rfl⟩
      | literal t body value hk hr => exact ⟨t, body, rfl, by rw [hk]; rfl⟩
  | product o | sum o | assign o =>
      refine ⟨o.token, [], rfl, ?_⟩
      have hm := o.mem
      rw [o.kind_eq]
      generalize o.op = op at hm
      cases op <;> simp_all [sortOf?, sort]
  | openParen p | closeParen p => exact ⟨p.token, [], rfl, by rw [p.kind_eq]; rfl⟩

/-- The same tokens start with one terminal only. -/
theorem Terminal.eq_of_append_eq {x y : Terminal finish} {ts ts' : List Token}
    (h : x.tokens ++ ts = y.tokens ++ ts') : x = y ∧ ts = ts' := by
  have hs : x.sort = y.sort := by
    obtain ⟨t, us, hx, hxs⟩ := x.exists_tokens_eq_cons
    obtain ⟨t', us', hy, hys⟩ := y.exists_tokens_eq_cons
    rw [hx, hy] at h
    rw [(List.cons.inj h).1, hys] at hxs
    exact (Option.some.inj hxs).symm
  cases x <;> cases y <;> try cases hs
  · obtain ⟨rfl, rfl⟩ := Leaf.eq_of_append_eq h
    exact ⟨rfl, rfl⟩
  all_goals
    obtain ⟨ht, rfl⟩ := List.cons.inj h
    first
      | obtain rfl := Sign.eq_of_token_eq ht
        exact ⟨rfl, rfl⟩
      | obtain rfl := Mark.eq_of_token_eq ht
        exact ⟨rfl, rfl⟩

/-- **Tokens are cut into terminals in one way only.** -/
theorem terminals_injective {xs ys : List (Terminal finish)}
    (h : xs.flatMap Terminal.tokens = ys.flatMap Terminal.tokens) : xs = ys := by
  induction xs generalizing ys with
  | nil =>
      cases ys with
      | nil => rfl
      | cons y ys =>
          obtain ⟨t, us, hy, -⟩ := y.exists_tokens_eq_cons
          simp [hy] at h
  | cons x xs ih =>
      cases ys with
      | nil =>
          obtain ⟨t, us, hx, -⟩ := x.exists_tokens_eq_cons
          simp [hx] at h
      | cons y ys =>
          obtain ⟨rfl, htail⟩ := Terminal.eq_of_append_eq h
          rw [ih htail]

end Grammar

end MatrixCalc
