/-
**Derivations on their way.**

Reading terminals from the left, what has been read at each moment is part of one derivation tree: for
each open parenthesis the sums that are assigned, the sum and the product that go on, and perhaps an
atom.  Each terminal extends this in one way or not at all, so a tree is found again from its terminals,
and no two trees have the same.

Main definitions:

* `MatrixCalc.Grammar.Front` — what stands before an operand since the last open parenthesis;
* `MatrixCalc.Grammar.Partial` — what has been read of a derivation;
* `MatrixCalc.Grammar.Partial.read?`, `MatrixCalc.Grammar.Partial.readAll?` — reading terminals;
* `MatrixCalc.Grammar.Partial.Finished` — a derivation has been read to its end.

Main results:

* `MatrixCalc.Grammar.Partial.terminals_readAll?` — nothing that is read is lost;
* `MatrixCalc.Grammar.Tree.finished_readAll?` — reading the terminals of a tree gives the tree;
* `MatrixCalc.Grammar.Tree.eq_of_tokens_eq` — **no two derivation trees have the same tokens**.
-/

import MatrixCalc.Proofs.Grammar.Tree

set_option autoImplicit false

namespace MatrixCalc

namespace Grammar

variable {finish : Position}

/-! ### What stands before an operand -/

/-- What stands before an operand since the last open parenthesis. -/
structure Front (finish : Position) where
  /-- Sums behind which an equality sign stands, the last one first. -/
  assigned : List (Tree finish .sum × AssignSign)
  /-- A sum that goes on. -/
  sum? : Option (Tree finish .sum × SumSign)
  /-- A product that goes on. -/
  product? : Option (Tree finish .product × ProductSign)

namespace Front

/-- Nothing has been read. -/
def empty : Front finish := ⟨[], none, none⟩

/-- The product that ends with the atom `a`. -/
def product (f : Front finish) (a : Tree finish .atom) : Tree finish .product :=
  match f.product? with
  | none => .ofAtom a
  | some (l, o) => .product l o a

/-- The sum that ends with the atom `a`. -/
def sum (f : Front finish) (a : Tree finish .atom) : Tree finish .sum :=
  match f.sum? with
  | none => .ofProduct (f.product a)
  | some (l, o) => .sum l o (f.product a)

/-- The assignments of `t` to the sums `ps`, the last one first. -/
def assignAll (ps : List (Tree finish .sum × AssignSign)) (t : Tree finish .assign) :
    Tree finish .assign :=
  ps.foldl (fun t p => .assign p.1 p.2 t) t

/-- The expression that ends with the atom `a`. -/
def whole (f : Front finish) (a : Tree finish .atom) : Tree finish .assign :=
  assignAll f.assigned (.ofSum (f.sum a))

/-- What stands before the next operand, behind the atom `a` and an operator of a product. -/
def pushProduct (f : Front finish) (a : Tree finish .atom) (o : ProductSign) : Front finish :=
  { f with product? := some (f.product a, o) }

/-- What stands before the next operand, behind the atom `a` and an operator of a sum. -/
def pushSum (f : Front finish) (a : Tree finish .atom) (o : SumSign) : Front finish :=
  { f with sum? := some (f.sum a, o), product? := none }

/-- What stands before the next operand, behind the atom `a` and an equality sign. -/
def pushAssign (f : Front finish) (a : Tree finish .atom) (o : AssignSign) : Front finish :=
  ⟨(f.sum a, o) :: f.assigned, none, none⟩

/-- The terminals that have been read. -/
def terminals (f : Front finish) : List (Terminal finish) :=
  f.assigned.reverse.flatMap (fun p => p.1.terminals ++ [.assign p.2]) ++
    (f.sum?.elim [] fun p => p.1.terminals ++ [.sum p.2]) ++
    (f.product?.elim [] fun p => p.1.terminals ++ [.product p.2])

@[simp] theorem terminals_empty : (empty : Front finish).terminals = [] := rfl

theorem terminals_assignAll (ps : List (Tree finish .sum × AssignSign)) (t : Tree finish .assign) :
    (assignAll ps t).terminals =
      ps.reverse.flatMap (fun p => p.1.terminals ++ [.assign p.2]) ++ t.terminals := by
  induction ps generalizing t with
  | nil => rfl
  | cons p ps ih =>
      have h := ih (.assign p.1 p.2 t)
      simp only [assignAll, List.foldl_cons] at h ⊢
      rw [h]
      simp [Tree.terminals]

theorem terminals_product (f : Front finish) (a : Tree finish .atom) :
    (f.product a).terminals =
      (f.product?.elim [] fun p => p.1.terminals ++ [.product p.2]) ++ a.terminals := by
  cases h : f.product? <;> simp [product, h, Tree.terminals]

theorem terminals_sum (f : Front finish) (a : Tree finish .atom) :
    (f.sum a).terminals =
      (f.sum?.elim [] fun p => p.1.terminals ++ [.sum p.2]) ++ (f.product a).terminals := by
  cases h : f.sum? <;> simp [sum, h, Tree.terminals]

/-- The expression that ends with an atom has the terminals before the atom, and its own. -/
@[simp] theorem terminals_whole (f : Front finish) (a : Tree finish .atom) :
    (f.whole a).terminals = f.terminals ++ a.terminals := by
  simp [whole, terminals_assignAll, Tree.terminals, terminals_sum, terminals_product, terminals]

@[simp] theorem terminals_pushProduct (f : Front finish) (a : Tree finish .atom) (o : ProductSign) :
    (f.pushProduct a o).terminals = f.terminals ++ a.terminals ++ [.product o] := by
  simp [pushProduct, terminals, terminals_product]

@[simp] theorem terminals_pushSum (f : Front finish) (a : Tree finish .atom) (o : SumSign) :
    (f.pushSum a o).terminals = f.terminals ++ a.terminals ++ [.sum o] := by
  simp [pushSum, terminals, terminals_sum, terminals_product]

@[simp] theorem terminals_pushAssign (f : Front finish) (a : Tree finish .atom) (o : AssignSign) :
    (f.pushAssign a o).terminals = f.terminals ++ a.terminals ++ [.assign o] := by
  simp [pushAssign, terminals, terminals_sum, terminals_product]

end Front

/-! ### What has been read -/

/-- What has been read of a derivation. -/
structure Partial (finish : Position) where
  /-- The open parentheses, each with what stands before it, the last one first. -/
  enclosing : List (OpenParen × Front finish)
  /-- What stands before the operand that was read, or is due. -/
  front : Front finish
  /-- The operand that was read, if one was. -/
  operand? : Option (Tree finish .atom)

namespace Partial

/-- Nothing has been read. -/
def start : Partial finish := ⟨[], .empty, none⟩

/-- What has been read behind a terminal, if it may stand there. -/
def read? (d : Partial finish) : Terminal finish → Option (Partial finish)
  | .leaf l => match d.operand? with
    | none => some { d with operand? := some (.leaf l) }
    | some _ => none
  | .product o => d.operand?.map fun a => { d with front := d.front.pushProduct a o, operand? := none }
  | .sum o => d.operand?.map fun a => { d with front := d.front.pushSum a o, operand? := none }
  | .assign o => d.operand?.map fun a => { d with front := d.front.pushAssign a o, operand? := none }
  | .openParen p => match d.operand? with
    | none => some ⟨(p, d.front) :: d.enclosing, .empty, none⟩
    | some _ => none
  | .closeParen q => match d.operand?, d.enclosing with
    | some a, (p, outer) :: enclosing =>
        some ⟨enclosing, outer, some (.paren p (d.front.whole a) q)⟩
    | _, _ => none

/-- What has been read behind several terminals. -/
def readAll? (d : Partial finish) (xs : List (Terminal finish)) : Option (Partial finish) :=
  xs.foldlM read? d

@[simp] theorem readAll?_nil (d : Partial finish) : d.readAll? [] = some d := rfl

theorem readAll?_cons (d : Partial finish) (x : Terminal finish) (xs : List (Terminal finish)) :
    d.readAll? (x :: xs) = (d.read? x).bind fun d' => d'.readAll? xs := by
  simp only [readAll?, List.foldlM_cons]
  rfl

theorem readAll?_append (d : Partial finish) (xs ys : List (Terminal finish)) :
    d.readAll? (xs ++ ys) = (d.readAll? xs).bind fun d' => d'.readAll? ys := by
  simp only [readAll?, List.foldlM_append]
  rfl

/-- The terminals that have been read. -/
def terminals (d : Partial finish) : List (Terminal finish) :=
  d.enclosing.reverse.flatMap (fun p => p.2.terminals ++ [.openParen p.1]) ++
    d.front.terminals ++ d.operand?.elim [] Tree.terminals

@[simp] theorem terminals_start : (start : Partial finish).terminals = [] := rfl

/-- Reading a terminal adds it to those that have been read. -/
theorem terminals_read? {d d' : Partial finish} {x : Terminal finish} (h : d.read? x = some d') :
    d'.terminals = d.terminals ++ [x] := by
  obtain ⟨enclosing, front, operand?⟩ := d
  cases x with
  | leaf l | openParen p =>
      cases operand? with
      | some a => simp [read?] at h
      | none =>
          simp only [read?, Option.some.injEq] at h
          subst h
          simp [terminals, Tree.terminals]
  | product o | sum o | assign o =>
      cases operand? with
      | none => simp [read?] at h
      | some a =>
          simp only [read?, Option.map_some, Option.some.injEq] at h
          subst h
          simp [terminals]
  | closeParen q =>
      cases operand? with
      | none => simp [read?] at h
      | some a =>
          cases enclosing with
          | nil => simp [read?] at h
          | cons p enclosing =>
              simp only [read?, Option.some.injEq] at h
              subst h
              simp [terminals, Tree.terminals]

/-- **Nothing that is read is lost.** -/
theorem terminals_readAll? {d d' : Partial finish} {xs : List (Terminal finish)}
    (h : d.readAll? xs = some d') : d'.terminals = d.terminals ++ xs := by
  induction xs generalizing d with
  | nil =>
      cases h
      simp
  | cons x xs ih =>
      rw [readAll?_cons, Option.bind_eq_some_iff] at h
      obtain ⟨e, he, h⟩ := h
      rw [ih h, terminals_read? he, List.append_assoc, List.singleton_append]

/-- A derivation has been read to its end, and `t` is its tree. -/
def Finished (d : Partial finish) (t : Tree finish .assign) : Prop :=
  d.enclosing = [] ∧ ∃ a, d.operand? = some a ∧ d.front.whole a = t

theorem Finished.unique {d : Partial finish} {t t' : Tree finish .assign} (h : d.Finished t)
    (h' : d.Finished t') : t = t' := by
  obtain ⟨-, a, ha, rfl⟩ := h
  obtain ⟨-, a', ha', rfl⟩ := h'
  rw [ha] at ha'
  cases ha'
  rfl

/-- A tree whose reading is finished has the terminals that were read. -/
theorem Finished.terminals_eq {d : Partial finish} {t : Tree finish .assign} (h : d.Finished t) :
    t.terminals = d.terminals := by
  obtain ⟨he, a, ha, rfl⟩ := h
  simp [terminals, he, ha]

end Partial

/-! ### Reading a tree -/

namespace Front

/-- A tree from the nonterminal `v` may be read: nothing goes on that would take it as an operand. -/
def Free (f : Front finish) : Level → Prop
  | .atom => True
  | .product => f.product? = none
  | .sum | .assign => f.sum? = none ∧ f.product? = none

/-- At `f` the tree `t` was read.  Now `f'` stands before its last atom, `a`, or before what holds
this atom. -/
def Ends (f f' : Front finish) (a : Tree finish .atom) : {v : Level} → Tree finish v → Prop
  | .atom, t => f' = f ∧ a = t
  | .product, t => f'.assigned = f.assigned ∧ f'.sum? = f.sum? ∧ f'.product a = t
  | .sum, t => f'.assigned = f.assigned ∧ f'.sum a = t
  | .assign, t => f'.whole a = assignAll f.assigned t

end Front

/-- A tree is read wherever nothing goes on that would take it as an operand. -/
theorem Tree.exists_readAll? {v : Level} (t : Tree finish v) :
    ∀ (enclosing : List (OpenParen × Front finish)) (f : Front finish), f.Free v →
      ∃ f' a, (⟨enclosing, f, none⟩ : Partial finish).readAll? t.terminals =
        some ⟨enclosing, f', some a⟩ ∧ f.Ends f' a t := by
  induction t with
  | leaf l =>
      intro enclosing f _
      exact ⟨f, .leaf l, rfl, rfl, rfl⟩
  | paren p inner q ih =>
      -- inside of the parentheses nothing goes on
      intro enclosing f _
      obtain ⟨f', a, hr, he⟩ := ih ((p, f) :: enclosing) .empty ⟨rfl, rfl⟩
      refine ⟨f, .paren p inner q, ?_, rfl, rfl⟩
      simp only [terminals, Partial.readAll?_cons, Partial.read?, Option.bind_some,
        Partial.readAll?_append, hr, Partial.readAll?_nil]
      rw [show f'.whole a = inner from he]
  | ofAtom b ih =>
      intro enclosing f hf
      obtain ⟨f', a, hr, he, ha⟩ := ih enclosing f trivial
      subst he ha
      refine ⟨f', a, hr, rfl, rfl, ?_⟩
      simp [Front.product, show f'.product? = none from hf]
  | product l o r ihl ihr =>
      -- the left tree ends before its last atom, and goes on with the operator
      intro enclosing f hf
      obtain ⟨f₁, a, hr, ha, hs, rfl⟩ := ihl enclosing f hf
      obtain ⟨f₂, b, hr', he, hb⟩ := ihr enclosing (f₁.pushProduct a o) trivial
      subst he hb
      refine ⟨f₁.pushProduct a o, b, ?_, ha, hs, rfl⟩
      simp only [terminals, Partial.readAll?_append, hr, Option.bind_some, Partial.readAll?_cons,
        Partial.read?, Option.map_some, hr']
  | ofProduct b ih =>
      intro enclosing f hf
      obtain ⟨f', a, hr, ha, hs, rfl⟩ := ih enclosing f hf.2
      refine ⟨f', a, hr, ha, ?_⟩
      simp [Front.sum, hs, hf.1]
  | sum l o r ihl ihr =>
      intro enclosing f hf
      obtain ⟨f₁, a, hr, ha, rfl⟩ := ihl enclosing f hf
      obtain ⟨f₂, b, hr', hb, hs, rfl⟩ := ihr enclosing (f₁.pushSum a o) rfl
      refine ⟨f₂, b, ?_, hb.trans ha, ?_⟩
      · simp only [terminals, Partial.readAll?_append, hr, Option.bind_some, Partial.readAll?_cons,
          Partial.read?, Option.map_some, hr']
      · simp [Front.sum, hs, Front.pushSum]
  | ofSum b ih =>
      intro enclosing f hf
      obtain ⟨f', a, hr, ha, rfl⟩ := ih enclosing f hf
      refine ⟨f', a, hr, ?_⟩
      simp [Front.Ends, Front.whole, ha]
  | assign l o r ihl ihr =>
      intro enclosing f hf
      obtain ⟨f₁, a, hr, ha, rfl⟩ := ihl enclosing f hf
      obtain ⟨f₂, b, hr', hb⟩ := ihr enclosing (f₁.pushAssign a o) ⟨rfl, rfl⟩
      refine ⟨f₂, b, ?_, ?_⟩
      · simp only [terminals, Partial.readAll?_append, hr, Option.bind_some, Partial.readAll?_cons,
          Partial.read?, Option.map_some, hr']
      · simpa [Front.Ends, Front.pushAssign, Front.assignAll, ha] using hb

/-- Reading the terminals of a tree gives the tree. -/
theorem Tree.finished_readAll? (t : Tree finish .assign) :
    ∃ d, Partial.start.readAll? t.terminals = some d ∧ d.Finished t := by
  obtain ⟨f, a, hr, he⟩ := t.exists_readAll? [] .empty ⟨rfl, rfl⟩
  exact ⟨⟨[], f, some a⟩, hr, rfl, a, rfl, he⟩

/-- **No two derivation trees have the same tokens.** -/
theorem Tree.eq_of_tokens_eq {t t' : Tree finish .assign} (h : t.tokens = t'.tokens) : t = t' := by
  have ht := terminals_injective h
  obtain ⟨d, hr, hd⟩ := t.finished_readAll?
  obtain ⟨d', hr', hd'⟩ := t'.finished_readAll?
  rw [ht, hr'] at hr
  cases hr
  exact hd.unique hd'

end Grammar

end MatrixCalc
