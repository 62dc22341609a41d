/-
**What a statement changes.**

An evaluation that succeeds has carried out the assignments of its expression, in their order, and it has bound
nothing else.  So a statement changes the innermost bindings only, and there its targets, which are bound behind
it, and `ans` if it stores a value.  If its answer has a name, this is the name of a variable that has the value
of the answer.

Main definitions:

* `MatrixCalc.Env.BindsOnly` — from one environment to another nothing is bound but some variables;
* `MatrixCalc.Progress.CarriesOut` — what is between two places are some assignments;
* `MatrixCalc.Statement.Answers` — the answer of a statement, and the environment behind it;
* `MatrixCalc.Statement.Frame` — what a statement leaves as it is, what it binds, and what it says.

Main results:

* `MatrixCalc.Eval.carriesOut_operand` — an expression carries out its assignments;
* `MatrixCalc.Statement.exists_answers` — all that a statement that succeeds can do;
* `MatrixCalc.Statement.assigned_evaluate` — a statement that succeeds notes its assignments;
* `MatrixCalc.Statement.frame_of_obtained` — **a statement changes its targets and `ans`, and what it says it
  leaves**.
-/

import Mathlib
import MatrixCalc.Proofs.Evaluation.Scopes
import MatrixCalc.Proofs.Grammar.Parsed
import MatrixCalc.Proofs.Session.Attempts

set_option autoImplicit false

namespace MatrixCalc

/-! ### Environments -/

namespace Env

variable {β : Type} {e e' : Env β} {ns : List String} {n : String}

/-- From one environment to another nothing is bound but the variables `ns`, and all of these are, in the
innermost bindings. -/
structure BindsOnly (ns : List String) (e e' : Env β) : Prop where
  outer : e'.outer = e.outer
  inner_get?_eq (n : String) (h : n ∉ ns) : e'.inner.get? n = e.inner.get? n
  bound (n : String) (h : n ∈ ns) : (e'.inner.get? n).isSome = true

namespace BindsOnly

theorem refl (e : Env β) : BindsOnly [] e e := ⟨rfl, fun _ _ => rfl, nofun⟩

theorem get?_eq (h : BindsOnly ns e e') (hn : n ∉ ns) : e'.get? n = e.get? n := by
  rw [Env.get?_eq, Env.get?_eq, h.outer, h.inner_get?_eq n hn]

/-- Binding one more variable. -/
theorem set (h : BindsOnly ns e e') (n : String) (v : β) : BindsOnly (ns ++ [n]) e (e'.set n v) where
  outer := h.outer
  inner_get?_eq m hm := by
    rw [List.mem_append, List.mem_singleton, not_or] at hm
    rw [Env.set, Bindings.get?_set, if_neg hm.2, h.inner_get?_eq m hm.1]
  bound m hm := by
    rw [Env.set, Bindings.get?_set]
    split
    · rfl
    · next hne =>
        rw [List.mem_append, List.mem_singleton] at hm
        exact h.bound m (hm.resolve_right hne)

end BindsOnly

end Env

/-! ### Carrying out assignments -/

/-- From `p` some assignments are carried out, the last of which leads to `q`. -/
inductive Progress.CarriesOut (p : Progress) : List Assignment → Progress → Prop where
  | done : CarriesOut p [] p
  | assign {as : List Assignment} {q : Progress} (h : CarriesOut p as q) (a : Assignment) (v : Value Float) :
      CarriesOut p (as ++ [a]) ((q.bind a.name v).note a)

namespace Progress.CarriesOut

variable {p q r : Progress} {as bs : List Assignment}

theorem trans (h : CarriesOut p as q) (h' : CarriesOut q bs r) : CarriesOut p (as ++ bs) r := by
  induction h' with
  | done =>
      rw [List.append_nil]
      exact h
  | assign _ a v ih =>
      rw [← List.append_assoc]
      exact ih.assign a v

theorem single (p : Progress) (a : Assignment) (v : Value Float) :
    CarriesOut p [a] ((p.bind a.name v).note a) := done.assign a v

/-- What is carried out is noted, the last assignment first. -/
theorem assigned_eq (h : CarriesOut p as q) : q.assigned = as.reverse ++ p.assigned := by
  induction h with
  | done => rfl
  | assign _ a v ih =>
      rw [List.reverse_concat, List.cons_append, ← ih]
      rfl

/-- What is carried out is bound, and nothing else. -/
theorem bindsOnly (h : CarriesOut p as q) : Env.BindsOnly (as.map Assignment.name) p.env q.env := by
  induction h with
  | done => exact .refl p.env
  | assign _ a v ih =>
      rw [List.map_append, List.map_singleton]
      exact ih.set a.name v

end Progress.CarriesOut

/-- The variable that an operand on the stack is a reference to. -/
def Operand.referent? : Operand → Option String
  | reference n => some n
  | value _ => none

namespace Eval

variable {α β : Type} {n : String} {c : Context} {p q : Progress}

/-! ### Evaluations that succeed -/

theorem run_pure_eq_ok_iff {a b : α} : (pure a : Eval α).run p = (.ok b, q) ↔ a = b ∧ p = q := by
  rw [run_pure, Prod.mk.injEq, Except.ok.injEq]

theorem run_throw_ne_ok {e : Failure} {a : α} : (throw e : Eval α).run p ≠ (.ok a, q) := by
  intro h
  have he : (Except.error e : Except Failure α) = .ok a := congrArg Prod.fst h
  nomatch he

/-- Two evaluations in a row succeed if the second one does where the first one has come to. -/
theorem run_bind_eq_ok_iff {m : Eval α} {f : α → Eval β} {b : β} :
    (m >>= f).run p = (.ok b, q) ↔ ∃ a r, m.run p = (.ok a, r) ∧ (f a).run r = (.ok b, q) := by
  rw [run_bind]
  rcases m.run p with ⟨e | a, r⟩
  · constructor
    · exact fun h => absurd h run_throw_ne_ok
    · rintro ⟨a, r', h, -⟩
      exact absurd h run_throw_ne_ok
  · constructor
    · exact fun h => ⟨a, r, rfl, h⟩
    · rintro ⟨a', r', h, hf⟩
      cases h
      exact hf

theorem run_ofExcept_eq_ok_iff {r : Except Failure α} {a : α} :
    (ofExcept r).run p = (.ok a, q) ↔ r = .ok a ∧ p = q := by
  rw [run_ofExcept, Prod.mk.injEq]

theorem run_resolve_reference_eq_ok_iff {v : Value Float} :
    (resolve (.reference n)).run p = (.ok v, q) ↔ p.env.get? n = some v ∧ p = q := by
  rw [run_resolve_reference]
  cases p.env.get? n with
  | some w => exact run_pure_eq_ok_iff.trans (by rw [Option.some.injEq])
  | none => exact ⟨fun h => absurd h run_throw_ne_ok, fun h => nomatch h.1⟩

theorem run_assign (l : Int) (m : String) (v : Value Float) (p : Progress) :
    (assign l m v).run p = (.ok (), ⟨p.env.set m v, ⟨l, m⟩ :: p.assigned⟩) := rfl

/-- Looking up carries out nothing. -/
theorem eq_of_run_resolve {o : Operand} {v : Value Float} (h : (resolve o).run p = (.ok v, q)) : p = q := by
  cases o with
  | value w => exact (run_pure_eq_ok_iff.1 h).2
  | reference n => exact (run_resolve_reference_eq_ok_iff.1 h).2

theorem eq_of_run_eq_ofExcept {m : Eval α} {a : α} (hm : ∃ r, m = ofExcept r) (h : m.run p = (.ok a, q)) :
    p = q := by
  obtain ⟨r, rfl⟩ := hm
  exact (run_ofExcept_eq_ok_iff.1 h).2

/-! ### Expressions carry out their assignments -/

/-- What an operator leaves on the stack, and the assignment that it carries out. -/
theorem carriesOut_operator {line : Int} {op : Operator} {stack stack' : List Operand}
    (h : (operator c line op stack).run p = (.ok stack', q)) :
    stack'.map Operand.referent? = op.referents (stack.map Operand.referent?) ∧
      p.CarriesOut (op.assignments line (stack.map Operand.referent?)) q := by
  rcases stack with _ | ⟨o', _ | ⟨o, stack⟩⟩
  · exact absurd h run_throw_ne_ok
  · exact absurd h run_throw_ne_ok
  obtain ⟨v, r, hbinary, hstack⟩ := run_bind_eq_ok_iff.1 h
  obtain ⟨rfl, rfl⟩ := run_pure_eq_ok_iff.1 hstack
  rw [binary_eq] at hbinary
  obtain ⟨w, p', hw, hbinary⟩ := run_bind_eq_ok_iff.1 hbinary
  obtain rfl := eq_of_run_resolve hw
  split at hbinary
  · next hop =>
      cases o with
      | value x => exact absurd hbinary run_throw_ne_ok
      | reference n =>
          obtain ⟨u, r', hassign, hpure⟩ := run_bind_eq_ok_iff.1 hbinary
          obtain ⟨rfl, rfl⟩ := run_pure_eq_ok_iff.1 hpure
          cases hassign
          refine ⟨by simp [Operator.referents, Operand.referent?, hop], ?_⟩
          simp only [List.map_cons, Operand.referent?, Operator.assignments, if_pos hop]
          exact .single p ⟨line, n⟩ w
  · next hop =>
      obtain ⟨x, p', hx, hbinary⟩ := run_bind_eq_ok_iff.1 hbinary
      obtain rfl := eq_of_run_resolve hx
      obtain ⟨y, p', hy, hpure⟩ := run_bind_eq_ok_iff.1 hbinary
      obtain ⟨-, rfl⟩ := run_ofExcept_eq_ok_iff.1 hy
      obtain ⟨rfl, rfl⟩ := run_pure_eq_ok_iff.1 hpure
      refine ⟨by simp [Operator.referents, Operand.referent?, hop], ?_⟩
      have hnone : op.assignments line (List.map Operand.referent? (o' :: o :: stack)) = [] := by
        cases o <;> simp [Operator.assignments, Operand.referent?, hop]
      rw [hnone]
      exact .done

mutual

/-- **An expression carries out its assignments**, and it is evaluated to a reference if it stands for a
variable. -/
theorem carriesOut_operand : ∀ (e : Expr) {p q : Progress} {o : Operand},
    (operand c e).run p = (.ok o, q) → o.referent? = e.referent? ∧ p.CarriesOut e.assignments q
  | .number _ x, p, q, o, h => by
      rw [operand, run_pure_eq_ok_iff] at h
      obtain ⟨rfl, rfl⟩ := h
      exact ⟨by simp [Expr.referent?, Operand.referent?], by simpa [Expr.assignments] using .done⟩
  | .name _ n, p, q, o, h => by
      rw [operand, run_pure_eq_ok_iff] at h
      obtain ⟨rfl, rfl⟩ := h
      exact ⟨by simp [Expr.referent?, Operand.referent?], by simpa [Expr.assignments] using .done⟩
  | .matrix _ rs, p, q, o, h => by
      rw [operand] at h
      obtain ⟨xss, r, hrows, h⟩ := run_bind_eq_ok_iff.1 h
      obtain ⟨v, r', hliteral, h⟩ := run_bind_eq_ok_iff.1 h
      obtain rfl := eq_of_run_eq_ofExcept (exists_literal_eq xss) hliteral
      obtain ⟨rfl, rfl⟩ := run_pure_eq_ok_iff.1 h
      refine ⟨by simp [Expr.referent?, Operand.referent?], ?_⟩
      rw [Expr.assignments]
      exact carriesOut_rows rs hrows
  | .sequence _ es, p, q, o, h => by
      rw [operand] at h
      rw [Expr.referent?, Expr.assignments]
      exact carriesOut_items es [] h
  | .operator _ _, p, q, o, h | .vacant, p, q, o, h => by
      rw [operand] at h
      exact absurd h run_throw_ne_ok

theorem carriesOut_items : ∀ (es : List Expr) (stack : List Operand) {p q : Progress} {o : Operand},
    (items c stack es).run p = (.ok o, q) →
      o.referent? = Expr.itemsReferent? (stack.map Operand.referent?) es ∧
      p.CarriesOut (Expr.itemsAssignments (stack.map Operand.referent?) es) q
  | [], stack, p, q, o, h => by
      rw [items] at h
      rw [Expr.itemsReferent?, Expr.itemsAssignments]
      rcases stack with _ | ⟨o', _ | ⟨o'', stack⟩⟩
      · exact absurd h run_throw_ne_ok
      · obtain ⟨rfl, rfl⟩ := run_pure_eq_ok_iff.1 h
        exact ⟨rfl, .done⟩
      · exact absurd h run_throw_ne_ok
  | e :: es, stack, p, q, o, h => by
      by_cases he : ∃ l op, e = .operator l op
      · obtain ⟨l, op, rfl⟩ := he
        rw [items] at h
        obtain ⟨stack', r, hoperator, h⟩ := run_bind_eq_ok_iff.1 h
        obtain ⟨hstack, hcarries⟩ := carriesOut_operator hoperator
        obtain ⟨hreferent, hrest⟩ := carriesOut_items es stack' h
        rw [hstack] at hreferent hrest
        rw [Expr.itemsReferent?, Expr.itemsAssignments]
        exact ⟨hreferent, hcarries.trans hrest⟩
      · have he' : ∀ l op, e ≠ .operator l op := fun l op h => he ⟨l, op, h⟩
        rw [items_operand c stack es he'] at h
        obtain ⟨o', r, hoperand, h⟩ := run_bind_eq_ok_iff.1 h
        obtain ⟨hfirst, hcarries⟩ := carriesOut_operand e hoperand
        obtain ⟨hreferent, hrest⟩ := carriesOut_items es (o' :: stack) h
        rw [List.map_cons, hfirst] at hreferent hrest
        rw [Expr.itemsReferent?_operand _ es he', Expr.itemsAssignments_operand _ es he']
        exact ⟨hreferent, hcarries.trans hrest⟩

theorem carriesOut_rows : ∀ (rs : List (List Expr)) {first : Option Nat} {p q : Progress}
    {xss : List (List Float)}, (rows c first rs).run p = (.ok xss, q) → p.CarriesOut (Expr.rowsAssignments rs) q
  | [], first, p, q, xss, h => by
      rw [rows, run_pure_eq_ok_iff] at h
      obtain ⟨-, rfl⟩ := h
      rw [Expr.rowsAssignments]
      exact .done
  | row :: rs, first, p, q, xss, h => by
      rw [rows] at h
      obtain ⟨xs, r, hcells, h⟩ := run_bind_eq_ok_iff.1 h
      obtain ⟨u, r', hwidth, h⟩ := run_bind_eq_ok_iff.1 h
      obtain rfl := eq_of_run_eq_ofExcept (exists_checkWidth_eq first xs.length) hwidth
      obtain ⟨xss', r', hrows, h⟩ := run_bind_eq_ok_iff.1 h
      obtain ⟨-, rfl⟩ := run_pure_eq_ok_iff.1 h
      rw [Expr.rowsAssignments]
      exact (carriesOut_cells row hcells).trans (carriesOut_rows rs hrows)

theorem carriesOut_cells : ∀ (es : List Expr) {p q : Progress} {xs : List Float},
    (cells c es).run p = (.ok xs, q) → p.CarriesOut (Expr.cellsAssignments es) q
  | [], p, q, xs, h => by
      rw [cells, run_pure_eq_ok_iff] at h
      obtain ⟨-, rfl⟩ := h
      rw [Expr.cellsAssignments]
      exact .done
  | e :: es, p, q, xs, h => by
      rw [cells] at h
      obtain ⟨o, r, hoperand, h⟩ := run_bind_eq_ok_iff.1 h
      obtain ⟨v, r', hresolve, h⟩ := run_bind_eq_ok_iff.1 h
      obtain rfl := eq_of_run_resolve hresolve
      obtain ⟨x, r', hcell, h⟩ := run_bind_eq_ok_iff.1 h
      obtain rfl := eq_of_run_eq_ofExcept (exists_cell_eq v) hcell
      obtain ⟨xs', r', hcells, h⟩ := run_bind_eq_ok_iff.1 h
      obtain ⟨-, rfl⟩ := run_pure_eq_ok_iff.1 h
      rw [Expr.cellsAssignments]
      exact (carriesOut_operand e hoperand).2.trans (carriesOut_cells es hcells)

end

/-- A tree carries out the assignments of its expression, and it is evaluated to a reference if it stands for a
variable. -/
theorem carriesOut_evaluate {t : ExprTree} {o : Operand} (h : (t.evaluate c).run p = (.ok o, q)) :
    o.referent? = t.referent? ∧ p.CarriesOut (Expr.ofItems t.line t.postorder).assignments q := by
  rw [← operand_ofItems_postorder c t.line t] at h
  have hcarries := carriesOut_operand _ h
  rw [ExprTree.referent?_ofItems] at hcarries
  exact hcarries

end Eval

/-! ### Statements -/

namespace Statement

variable {c : Context} {s : Statement} {env : Env (Value Float)} {a : Answer}

/-- The answer of a statement whose expression has come to `q`, and the environment behind it. -/
inductive Answers (s : Statement) (q : Progress) : Env (Value Float) → Answer → Prop where
  /-- The expression stands for a variable, whose value is the answer. -/
  | reference {n : String} {v : Value Float} (hn : s.expr.referent? = some n) (hv : q.env.get? n = some v) :
      Answers s q q.env ⟨some n, v⟩
  /-- The value is stored in `ans`. -/
  | stored (v : Value Float) (hn : s.expr.referent? = none) (hs : s.storesAns = true) :
      Answers s q (q.env.set ansName v) ⟨some ansName, v⟩
  /-- The value has no name. -/
  | unnamed (v : Value Float) (hn : s.expr.referent? = none) (hs : s.storesAns = false) :
      Answers s q q.env ⟨none, v⟩

/-- `ans`, if the value of a statement is stored there: the flag says so, and the expression stands for no
variable. -/
def storedIn (s : Statement) : List String :=
  if s.storesAns = true ∧ s.expr.referent? = none then [ansName] else []

namespace Answers

variable {q : Progress} {env' : Env (Value Float)} {n : String}

/-- Behind the expression nothing is bound but `ans`, if the value is stored there. -/
theorem bindsOnly {ns : List String} (h : s.Answers q env' a) (hq : Env.BindsOnly ns env q.env) :
    Env.BindsOnly (ns ++ s.storedIn) env env' := by
  cases h with
  | reference hn hv =>
      rw [storedIn, if_neg (by simp [hn]), List.append_nil]
      exact hq
  | stored v hn hs =>
      rw [storedIn, if_pos ⟨hs, hn⟩]
      exact hq.set ansName v
  | unnamed v hn hs =>
      rw [storedIn, if_neg (by simp [hs]), List.append_nil]
      exact hq

/-- The name of the answer is the variable that the expression stands for, or else `ans` if the flag says so. -/
theorem name_eq (h : s.Answers q env' a) :
    a.name = s.expr.referent?.or (if s.storesAns then some ansName else none) := by
  cases h with
  | reference hn hv => rw [hn, Option.some_or]
  | stored v hn hs => rw [hn, hs, Option.none_or, if_pos rfl]
  | unnamed v hn hs =>
      rw [hn, hs, Option.none_or]
      rfl

/-- The name of the answer has its value. -/
theorem get?_name (h : s.Answers q env' a) (hn : a.name = some n) : env'.get? n = some a.value := by
  cases h with
  | reference _ hv =>
      cases hn
      exact hv
  | stored v _ _ =>
      cases hn
      rw [Env.get?_set, if_pos rfl]
  | unnamed v _ _ => cases hn

end Answers

/-- **All that a statement that succeeds can do**: it carries out its assignments, and then it answers. -/
theorem exists_answers (h : (s.evaluate c env).result = .ok a) :
    ∃ q : Progress, Progress.CarriesOut ⟨env, []⟩ s.expr.assignments q ∧
      s.Answers q (s.evaluate c env).env a ∧ (s.evaluate c env).assigned = q.assigned.reverse := by
  have hplace := evaluate_eq_evaluateInPlace h
  rw [hplace] at h ⊢
  obtain ⟨r, hrun⟩ : ∃ r, (Eval.answer c s).run ⟨env, []⟩ = (.ok a, r) := ⟨_, Prod.ext h rfl⟩
  rw [evaluateInPlace, hrun]
  obtain ⟨o, q, hoperand, hanswer⟩ := Eval.run_bind_eq_ok_iff.1 hrun
  obtain ⟨hreferent, hcarries⟩ := Eval.carriesOut_operand s.expr hoperand
  refine ⟨q, hcarries, ?_⟩
  cases o with
  | reference n =>
      obtain ⟨v, q', hresolve, hpure⟩ := Eval.run_bind_eq_ok_iff.1 hanswer
      obtain ⟨hv, rfl⟩ := Eval.run_resolve_reference_eq_ok_iff.1 hresolve
      obtain ⟨rfl, rfl⟩ := Eval.run_pure_eq_ok_iff.1 hpure
      exact ⟨.reference hreferent.symm hv, rfl⟩
  | value v =>
      dsimp only at hanswer
      split at hanswer
      · next hstores =>
          obtain ⟨u, q', hbind, hpure⟩ := Eval.run_bind_eq_ok_iff.1 hanswer
          cases hbind
          obtain ⟨rfl, rfl⟩ := Eval.run_pure_eq_ok_iff.1 hpure
          exact ⟨.stored v hreferent.symm hstores, rfl⟩
      · next hstores =>
          obtain ⟨rfl, rfl⟩ := Eval.run_pure_eq_ok_iff.1 hanswer
          exact ⟨.unnamed v hreferent.symm (Bool.eq_false_iff.2 hstores), rfl⟩

/-- A statement that succeeds notes its assignments in the order in which it carries them out. -/
theorem assigned_evaluate (h : (s.evaluate c env).result = .ok a) :
    (s.evaluate c env).assigned = s.expr.assignments := by
  obtain ⟨q, hcarries, -, hassigned⟩ := exists_answers h
  rw [hassigned, hcarries.assigned_eq, List.append_nil, List.reverse_reverse]

/-- Whether a statement whose expression is the tree `t` stores its value in `ans`: its flag says so, and the
tree stands for no variable. -/
def Stores (s : Statement) (t : ExprTree) : Prop := s.storesAns = true ∧ t.referent? = none

/-- A statement whose expression is the tree `t` leads from the environment `env` to `env'` with the answer
`a`. -/
structure Frame (s : Statement) (t : ExprTree) (env env' : Env (Value Float)) (a : Answer) : Prop where
  /-- Nothing changes behind the innermost bindings. -/
  outer : env'.outer = env.outer
  /-- What is not assigned remains as it is, unless it is `ans` and the value is stored there. -/
  kept (n : String) (hn : ¬ t.Assigns n) (hans : ¬ (n = ansName ∧ s.Stores t)) :
    env'.inner.get? n = env.inner.get? n ∧ env'.get? n = env.get? n
  /-- What is assigned is bound, in the innermost bindings. -/
  bound (n : String) (hn : t.Assigns n) : (env'.inner.get? n).isSome = true
  /-- The name that is shown: the variable that the tree stands for, or `ans` if the value is stored there. -/
  name : a.name = t.referent?.or (if s.storesAns then some ansName else none)
  /-- The name that is shown has the value that is shown. -/
  shown (n : String) (hn : a.name = some n) : env'.get? n = some a.value

/-- A statement that succeeds changes what its tree assigns, and `ans` if it stores its value. -/
theorem frame_of_evaluate {t : ExprTree} (hexpr : Expr.ofItems t.line t.postorder = s.expr)
    (h : (s.evaluate c env).result = .ok a) : s.Frame t env (s.evaluate c env).env a := by
  obtain ⟨q, hcarries, hanswers, -⟩ := exists_answers h
  have hbinds := hanswers.bindsOnly hcarries.bindsOnly
  have htargets : ∀ n, n ∈ s.expr.assignments.map Assignment.name ↔ t.Assigns n := by
    intro n
    rw [← hexpr]
    exact t.mem_targets_ofItems t.line
  have hreferent : s.expr.referent? = t.referent? := by
    rw [← hexpr, ExprTree.referent?_ofItems]
  have hmem : ∀ n, n ∈ s.expr.assignments.map Assignment.name ++ s.storedIn →
      t.Assigns n ∨ n = ansName ∧ s.Stores t := by
    intro n hn
    rw [List.mem_append, htargets, storedIn, hreferent] at hn
    refine hn.imp id fun hn => ?_
    split at hn
    · next hstores => exact ⟨List.mem_singleton.1 hn, hstores⟩
    · cases hn
  refine ⟨hbinds.outer, fun n hn hans => ?_, fun n hn => ?_, ?_, fun n hn => hanswers.get?_name hn⟩
  · have hnot : n ∉ s.expr.assignments.map Assignment.name ++ s.storedIn := fun h => (hmem n h).elim hn hans
    exact ⟨hbinds.inner_get?_eq n hnot, hbinds.get?_eq hnot⟩
  · exact hbinds.bound n (List.mem_append_left _ ((htargets n).2 hn))
  · rw [hanswers.name_eq, hreferent]

/-- **A statement changes its targets and `ans`, and what it says it leaves.**  The expression of an obtained
statement is a tree.  If the statement succeeds, it changes innermost bindings only, and of these the ones of the
variables that the tree assigns, which are bound behind it, and the one of `ans` if the value is stored there.  The
name that it shows has the value that it shows. -/
theorem frame_of_obtained {src : String} {s : Statement} (h : Parse.Obtained src s) :
    (∃ t : ExprTree, Expr.ofItems t.line t.postorder = s.expr) ∧
    ∀ t : ExprTree, Expr.ofItems t.line t.postorder = s.expr →
      ∀ (c : Context) (env : Env (Value Float)) (a : Answer), (s.evaluate c env).result = .ok a →
        s.Frame t env (s.evaluate c env).env a := by
  obtain ⟨finish, start, rest, hs⟩ := h.exists_gives
  obtain ⟨t, -, ht⟩ := Parse.exists_tree_of_statement_gives hs
  exact ⟨⟨t, ht⟩, fun t ht c env a => frame_of_evaluate ht⟩

/-- The statement of the text `[(x=y)=z]+y`. -/
theorem source_cell_assign : Parse.source "[(x=y)=z]+y" = .ok
    [⟨.sequence 1 [.matrix 1 [[.sequence 1 [.name 1 "x", .name 1 "y", .operator 1 .assign, .name 1 "z",
      .operator 1 .assign]]], .name 1 "y", .operator 1 .add], true, true, 1⟩] := by
  set_option maxRecDepth 100000 in cbv

/-- The text `[(x=y)=z]+y` where `y` is two and `z` is three: the variable `x` is assigned twice in a cell, and the
sum is stored in `ans`. -/
theorem frame_of_obtained_cell :
    ∃ (s : Statement) (t : ExprTree) (a : Answer), Parse.Obtained "[(x=y)=z]+y" s ∧
      Expr.ofItems t.line t.postorder = s.expr ∧ t.Assigns "x" ∧
      (s.evaluate .usual ((Env.empty.set "y" (.scalar 2)).set "z" (.scalar 3))).result = .ok a ∧
      s.Frame t ((Env.empty.set "y" (.scalar 2)).set "z" (.scalar 3))
        (s.evaluate .usual ((Env.empty.set "y" (.scalar 2)).set "z" (.scalar 3))).env a := by
  have hobtained : Parse.Obtained "[(x=y)=z]+y" _ := .inl ⟨_, source_cell_assign, List.mem_singleton_self _⟩
  let cell : ExprTree :=
    .node 1 .assign (.node 1 .assign (.name 1 "x") (.name 1 "y")) (.name 1 "z")
  let t : ExprTree := .node 1 .add (.literal 1 [[cell]]) (.name 1 "y")
  have ht : t.Assigns "x" := .left (.cell (List.mem_singleton_self _) (List.mem_singleton_self _) (.here rfl))
  refine ⟨_, t, ⟨some ansName, .scalar (3 + 2)⟩, hobtained, rfl, ht, rfl, ?_⟩
  exact (frame_of_obtained hobtained).2 t rfl .usual _ _ rfl

end Statement

end MatrixCalc
