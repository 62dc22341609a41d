/-
**An evaluation from two places.**

An evaluation looks up variables, binds them and notes the assignments that it carries out; nothing else
depends on what it has come to.  So take a relation between two places that gives the variables of an
expression the same values and that bindings and notes preserve.  From places that are related, the expression
has the same value or fails in the same way, and it comes to places that are related again.

Main definitions:

* `MatrixCalc.Progress.Compatible` — a relation is preserved by what evaluations do to some variables;
* `MatrixCalc.Eval.Respects` — an evaluation gives the same from places that are related, and comes to related
  places;
* `MatrixCalc.Operand.Among` — an operand is a value, or a reference to one of some variables.

Main results:

* `MatrixCalc.Eval.respects_operand` — **expressions respect the relations that their variables allow**;
* `MatrixCalc.Eval.respects_answer` — and so do statements.
-/

import MatrixCalc.Evaluation.Answer
import MatrixCalc.Proofs.Evaluation.Names

set_option autoImplicit false

namespace MatrixCalc

/-- The place behind the binding of a name. -/
def Progress.bind (p : Progress) (n : String) (v : Value Float) : Progress := { p with env := p.env.set n v }

/-- The place behind a note of an assignment. -/
def Progress.note (p : Progress) (a : Assignment) : Progress := { p with assigned := a :: p.assigned }

/-- A relation gives the variables `N` the same values, and it is preserved if one of them is bound and if
assignments are noted. -/
structure Progress.Compatible (N : String → Prop) (rel : Progress → Progress → Prop) : Prop where
  get?_eq {p q : Progress} {n : String} (h : rel p q) (hn : N n) : p.env.get? n = q.env.get? n
  bind {p q : Progress} {n : String} (h : rel p q) (hn : N n) (v : Value Float) : rel (p.bind n v) (q.bind n v)
  note {p q : Progress} (h : rel p q) (a : Assignment) : rel (p.note a) (q.note a)

/-- An operand is a value or a reference to one of the variables `N`. -/
def Operand.Among (N : String → Prop) (o : Operand) : Prop := ∀ n, o = .reference n → N n

theorem Operand.among_value (N : String → Prop) (v : Value Float) : (Operand.value v).Among N := nofun

theorem Operand.among_reference {N : String → Prop} {n : String} (h : N n) :
    (Operand.reference n).Among N := by
  rintro m ⟨⟩
  exact h

namespace Eval

variable {α β : Type}

/-! ### Related places -/

/-- From places that are related, an evaluation gives the same result, with `Q`, or fails in the same way, and
comes to places that are related. -/
def Respects (rel : Progress → Progress → Prop) (Q : α → Prop) (m : Eval α) : Prop :=
  ∀ p q, rel p q →
    (m.run p).1 = (m.run q).1 ∧ rel (m.run p).2 (m.run q).2 ∧ ∀ a, (m.run p).1 = .ok a → Q a

variable {N : String → Prop} {rel : Progress → Progress → Prop} {Q : α → Prop} {R : β → Prop}

theorem Respects.pure {a : α} (h : Q a) : Respects rel Q (Pure.pure a) := by
  intro p q hrel
  refine ⟨rfl, hrel, ?_⟩
  rintro b ⟨⟩
  exact h

theorem Respects.throw (e : Failure) : Respects rel Q (MonadExcept.throw e : Eval α) :=
  fun _ _ hrel => ⟨rfl, hrel, nofun⟩

/-- Two evaluations in a row. -/
theorem Respects.bind {m : Eval α} {f : α → Eval β} (hm : Respects rel Q m)
    (hf : ∀ a, Q a → Respects rel R (f a)) : Respects rel R (m >>= f) := by
  intro p q h
  rw [run_bind, run_bind]
  obtain ⟨hresult, hrel, hQ⟩ := hm p q h
  rcases hp : m.run p with ⟨r, p'⟩
  rcases hq : m.run q with ⟨r', q'⟩
  rw [hp, hq] at hresult hrel
  obtain rfl : r = r' := hresult
  cases r with
  | error e => exact ⟨rfl, hrel, nofun⟩
  | ok a => exact hf a (hQ a (by rw [hp])) p' q' hrel

theorem respects_ofExcept (r : Except Failure α) : Respects rel (fun _ => True) (ofExcept r) := by
  cases r with
  | ok a => exact .pure trivial
  | error e => exact .throw e

theorem respects_cell (v : Value Float) : Respects rel (fun _ => True) (cell v) := by
  obtain ⟨r, hr⟩ := exists_cell_eq v
  exact hr ▸ respects_ofExcept r

theorem respects_checkWidth (first : Option Nat) (n : Nat) :
    Respects rel (fun _ => True) (checkWidth first n) := by
  obtain ⟨r, hr⟩ := exists_checkWidth_eq first n
  exact hr ▸ respects_ofExcept r

theorem respects_literal (rows : List (List Float)) : Respects rel (fun _ => True) (literal rows) := by
  obtain ⟨r, hr⟩ := exists_literal_eq rows
  exact hr ▸ respects_ofExcept r

theorem respects_single {stack : List Operand} (hstack : ∀ o ∈ stack, o.Among N) :
    Respects rel (Operand.Among N) (single stack) := by
  rcases stack with _ | ⟨o, _ | ⟨o', stack⟩⟩
  · exact .throw _
  · exact .pure (hstack o (by simp))
  · exact .throw _

theorem respects_resolve (h : Progress.Compatible N rel) {o : Operand} (ho : o.Among N) :
    Respects rel (fun _ => True) (resolve o) := by
  cases o with
  | value v => exact .pure trivial
  | reference n =>
      intro p q hrel
      rw [run_resolve_reference, run_resolve_reference, h.get?_eq hrel (ho n rfl)]
      cases q.env.get? n with
      | some v => exact ⟨rfl, hrel, fun _ _ => trivial⟩
      | none => exact ⟨rfl, hrel, fun _ _ => trivial⟩

theorem respects_bind (h : Progress.Compatible N rel) {n : String} (hn : N n) (v : Value Float) :
    Respects rel (fun _ => True) (Eval.bind n v) :=
  fun _ _ hrel => ⟨rfl, h.bind hrel hn v, fun _ _ => trivial⟩

theorem respects_assign (h : Progress.Compatible N rel) (line : Int) {n : String} (hn : N n)
    (v : Value Float) : Respects rel (fun _ => True) (assign line n v) :=
  (respects_bind h hn v).bind fun _ _ _ _ hrel => ⟨rfl, h.note hrel ⟨line, n⟩, fun _ _ => trivial⟩

theorem respects_binary (h : Progress.Compatible N rel) (c : Context) (line : Int) (op : Operator)
    {o o' : Operand} (ho : o.Among N) (ho' : o'.Among N) :
    Respects rel (Operand.Among N) (binary c line op o o') := by
  rw [binary_eq]
  refine (respects_resolve h ho').bind fun r _ => ?_
  split
  · cases o with
    | reference n => exact (respects_assign h line (ho n rfl) r).bind fun _ _ => .pure ho
    | value v => exact .throw _
  · refine (respects_resolve h ho).bind fun x _ => (respects_ofExcept _).bind fun v _ => ?_
    exact .pure (Operand.among_value N v)

theorem respects_operator (h : Progress.Compatible N rel) (c : Context) (line : Int) (op : Operator)
    {stack : List Operand} (hstack : ∀ o ∈ stack, o.Among N) :
    Respects rel (fun stack' => ∀ o ∈ stack', o.Among N) (operator c line op stack) := by
  rcases stack with _ | ⟨o', _ | ⟨o, stack⟩⟩
  · exact .throw _
  · exact .throw _
  · simp only [List.forall_mem_cons] at hstack
    obtain ⟨ho', ho, hstack⟩ := hstack
    refine (respects_binary h c line op ho ho').bind fun v hv => .pure ?_
    exact List.forall_mem_cons.2 ⟨hv, hstack⟩

mutual

/-- **Expressions respect the relations that their variables allow.** -/
theorem respects_operand (h : Progress.Compatible N rel) (c : Context) : ∀ e : Expr,
    (∀ n ∈ e.names, N n) → Respects rel (Operand.Among N) (operand c e)
  | .number _ x, _ => by
      rw [operand]
      exact .pure (Operand.among_value N _)
  | .name _ n, hnames => by
      rw [operand]
      rw [Expr.names] at hnames
      exact .pure (Operand.among_reference (hnames n (List.mem_singleton_self n)))
  | .matrix _ rs, hnames => by
      rw [operand]
      rw [Expr.names] at hnames
      refine (respects_rows h c none rs hnames).bind fun xss _ => (respects_literal xss).bind fun v _ => ?_
      exact .pure (Operand.among_value N v)
  | .sequence _ es, hnames => by
      rw [operand]
      rw [Expr.names] at hnames
      exact respects_items h c es [] hnames (by simp)
  | .operator _ _, _ | .vacant, _ => by
      rw [operand]
      exact .throw _

theorem respects_items (h : Progress.Compatible N rel) (c : Context) : ∀ (es : List Expr)
    (stack : List Operand), (∀ n ∈ Expr.itemsNames es, N n) → (∀ o ∈ stack, o.Among N) →
      Respects rel (Operand.Among N) (items c stack es)
  | [], stack, _, hstack => by
      rw [items]
      exact respects_single hstack
  | e :: es, stack, hnames, hstack => by
      rw [Expr.itemsNames, List.forall_mem_append] at hnames
      by_cases he : ∃ l op, e = .operator l op
      · obtain ⟨l, op, rfl⟩ := he
        rw [items]
        exact (respects_operator h c l op hstack).bind fun stack' hstack' =>
          respects_items h c es stack' hnames.2 hstack'
      · have he' : ∀ l op, e ≠ .operator l op := fun l op h => he ⟨l, op, h⟩
        rw [items_operand c stack es he']
        exact (respects_operand h c e hnames.1).bind fun o ho =>
          respects_items h c es (o :: stack) hnames.2 (List.forall_mem_cons.2 ⟨ho, hstack⟩)

theorem respects_rows (h : Progress.Compatible N rel) (c : Context) : ∀ (first : Option Nat)
    (rs : List (List Expr)), (∀ n ∈ Expr.rowsNames rs, N n) →
      Respects rel (fun _ => True) (rows c first rs)
  | _, [], _ => by
      rw [rows]
      exact .pure trivial
  | first, row :: rs, hnames => by
      rw [Expr.rowsNames, List.forall_mem_append] at hnames
      rw [rows]
      refine (respects_cells h c row hnames.1).bind fun xs _ => ?_
      refine (respects_checkWidth first xs.length).bind fun _ _ => ?_
      exact (respects_rows h c _ rs hnames.2).bind fun xss _ => .pure trivial

theorem respects_cells (h : Progress.Compatible N rel) (c : Context) : ∀ es : List Expr,
    (∀ n ∈ Expr.itemsNames es, N n) → Respects rel (fun _ => True) (cells c es)
  | [], _ => by
      rw [cells]
      exact .pure trivial
  | e :: es, hnames => by
      rw [Expr.itemsNames, List.forall_mem_append] at hnames
      rw [cells]
      refine (respects_operand h c e hnames.1).bind fun o ho => (respects_resolve h ho).bind fun v _ => ?_
      exact (respects_cell v).bind fun x _ => (respects_cells h c es hnames.2).bind fun xs _ => .pure trivial

end

/-- **Statements respect the relations that their variables allow**, and `ans` if they store in it. -/
theorem respects_answer (h : Progress.Compatible N rel) (c : Context) (s : Statement)
    (hnames : ∀ n ∈ s.expr.names, N n) (hans : s.storesAns = true → N ansName) :
    Respects rel (fun _ => True) (answer c s) := by
  refine (respects_operand h c s.expr hnames).bind fun o ho => ?_
  cases o with
  | reference n => exact (respects_resolve h ho).bind fun v _ => .pure trivial
  | value v =>
      dsimp only
      split
      · next hstores => exact (respects_bind h (hans hstores) v).bind fun _ _ => .pure trivial
      · exact .pure trivial

end Eval

end MatrixCalc
