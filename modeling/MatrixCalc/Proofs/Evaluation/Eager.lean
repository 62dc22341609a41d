/-
**Evaluation from left to right.**

A variable that is an operand is looked up when the operator is applied, not when it is reached.  In between
the right operand is evaluated, and that may assign the variable.  A reader would rather take the value of
the variable where it stands.  Here trees are evaluated in this way: a variable is read when it is reached,
unless it is to be assigned, and an assignment that is an operand has the value that it assigns.  The two
ways succeed in the same environments, with the same value and the same environment behind them, as long as
no operand on the right of an arithmetic operator assigns the variable on its left.

Main definitions:

* `MatrixCalc.ExprTree.Undisturbed` — no operand on the right assigns the variable on the left;
* `MatrixCalc.ExprTree.eager`, `MatrixCalc.Statement.evaluateEagerly` — evaluation from left to right;
* `MatrixCalc.Eval.Agree` — two evaluations succeed in the same way;
* `MatrixCalc.Eval.Keeps` — an evaluation that succeeds does not change a variable.

Main results:

* `MatrixCalc.ExprTree.keeps_evaluate` — only variables that are assigned change;
* `MatrixCalc.ExprTree.Undisturbed.agree_eager` — undisturbed trees have the same value in both ways;
* `MatrixCalc.Statement.evaluate_iff_evaluateEagerly` — **undisturbed statements can be evaluated from left
  to right**.
-/

import MatrixCalc.Proofs.Evaluation.Stored

set_option autoImplicit false

namespace MatrixCalc

/-! ### Evaluation from left to right -/

namespace ExprTree

/-- Whether a tree is a variable. -/
def isName : ExprTree → Bool
  | name _ _ => true
  | grouped _ t => t.isName
  | _ => false

mutual

/-- Evaluates a tree to a value.  A variable is read when it is reached.  The target of an assignment is not
read; if it is an assignment itself, that is carried out, and the variable of it is assigned once more. -/
def eager (c : Context) : ExprTree → Eval (Value Float)
  | number _ x => pure (.scalar x)
  | name _ n => Eval.resolve (.reference n)
  | literal _ rows => do
      let xss ← eagerRows c none rows
      Eval.literal xss
  | node l op left right =>
      if op = .assign then do
        unless left.isName do
          let _ ← eager c left
        let v ← eager c right
        match left.referent? with
        | some n => do
            Eval.assign l n v
            pure v
        | none => Eval.fail .assignmentTarget
      else do
        let v ← eager c left
        let w ← eager c right
        Eval.ofExcept (Value.apply c.zeroTolerance op v w)
  | grouped _ t => eager c t

/-- Evaluates the rows of a literal from the top. -/
def eagerRows (c : Context) (first : Option Nat) : List (List ExprTree) → Eval (List (List Float))
  | [] => pure []
  | row :: rows => do
      let xs ← eagerCells c row
      Eval.checkWidth first xs.length
      let xss ← eagerRows c (some (first.getD xs.length)) rows
      pure (xs :: xss)

/-- Evaluates the cells of a row from the left. -/
def eagerCells (c : Context) : List ExprTree → Eval (List Float)
  | [] => pure []
  | t :: ts => do
      let v ← eager c t
      let x ← Eval.cell v
      let xs ← eagerCells c ts
      pure (x :: xs)

end

/-! ### Variables that are assigned -/

/-- No arithmetic operator has a variable, or an assignment to it, on the left and an operand that assigns
this variable on the right. -/
inductive Undisturbed : ExprTree → Prop where
  | number (l : Int) (x : Float) : Undisturbed (.number l x)
  | name (l : Int) (n : String) : Undisturbed (.name l n)
  | literal {l : Int} {rows : List (List ExprTree)}
      (cells : ∀ row ∈ rows, ∀ t ∈ row, Undisturbed t) : Undisturbed (.literal l rows)
  | assign {l : Int} {left right : ExprTree} (hl : Undisturbed left) (hr : Undisturbed right) :
      Undisturbed (.node l .assign left right)
  | arithmetic {l : Int} {op : Operator} {left right : ExprTree} (hop : op ≠ .assign)
      (hl : Undisturbed left) (hr : Undisturbed right)
      (apart : ∀ n, left.referent? = some n → ¬ right.Assigns n) : Undisturbed (.node l op left right)
  | grouped {l : Int} {t : ExprTree} (h : Undisturbed t) : Undisturbed (.grouped l t)

end ExprTree

namespace Eval

variable {α β : Type} {n : String} {c : Context}

/-! ### Variables that do not change -/

/-- An evaluation that succeeds does not change the value of a variable. -/
def Keeps (n : String) (m : Eval α) : Prop :=
  ∀ p a q, m.run p = (.ok a, q) → q.env.get? n = p.env.get? n

/-- Two evaluations in a row. -/
theorem Keeps.bind {m : Eval α} {f : α → Eval β} (hm : Keeps n m) (hf : ∀ a, Keeps n (f a)) :
    Keeps n (m >>= f) := by
  intro p b q h
  obtain ⟨a, r, ha, hb⟩ := run_bind_eq_ok_iff.1 h
  exact (hf a r b q hb).trans (hm p a r ha)

theorem keeps_resolve (o : Operand) : Keeps n (resolve o) := by
  intro p v q h
  rw [eq_of_run_resolve h]

/-! ### Evaluations that agree -/

/-- Two evaluations succeed from the same places, with the same result and at the same place. -/
def Agree (m m' : Eval α) : Prop := ∀ p a q, m.run p = (.ok a, q) ↔ m'.run p = (.ok a, q)

theorem Agree.refl (m : Eval α) : Agree m m := fun _ _ _ => Iff.rfl

theorem Agree.trans {m m' m'' : Eval α} (h : Agree m m') (h' : Agree m' m'') : Agree m m'' :=
  fun p a q => (h p a q).trans (h' p a q)

/-- Evaluations in a row agree if the first ones do, and the second ones wherever the first ones come to. -/
theorem Agree.bind_of {m m' : Eval α} {f f' : α → Eval β} (hm : Agree m m')
    (hf : ∀ p a q, m'.run p = (.ok a, q) →
      ∀ b r, (f a).run q = (.ok b, r) ↔ (f' a).run q = (.ok b, r)) :
    Agree (m >>= f) (m' >>= f') := by
  intro p b r
  rw [run_bind_eq_ok_iff, run_bind_eq_ok_iff]
  constructor
  · rintro ⟨a, q, ha, hb⟩
    have ha' := (hm p a q).1 ha
    exact ⟨a, q, ha', (hf p a q ha' b r).1 hb⟩
  · rintro ⟨a, q, ha, hb⟩
    exact ⟨a, q, (hm p a q).2 ha, (hf p a q ha b r).2 hb⟩

theorem Agree.bind {m m' : Eval α} {f f' : α → Eval β} (hm : Agree m m')
    (hf : ∀ a, Agree (f a) (f' a)) : Agree (m >>= f) (m' >>= f') :=
  hm.bind_of fun _ a q _ => hf a q

/-- A variable can be read before an evaluation that does not change it as well as behind. -/
theorem Keeps.agree_resolve {m : Eval α} {f : Value Float → α → Eval β} (h : Keeps n m) :
    Agree (resolve (.reference n) >>= fun v => m >>= fun a => f v a)
      (m >>= fun a => resolve (.reference n) >>= fun v => f v a) := by
  intro p b r
  simp only [run_bind_eq_ok_iff, run_resolve_reference_eq_ok_iff]
  constructor
  · rintro ⟨v, _, ⟨hv, rfl⟩, a, q, ha, hb⟩
    exact ⟨a, q, ha, v, q, ⟨(h p a q ha).trans hv, rfl⟩, hb⟩
  · rintro ⟨a, q, ha, v, _, ⟨hv, rfl⟩, hb⟩
    exact ⟨v, p, ⟨(h p a q ha).symm.trans hv, rfl⟩, a, q, ha, hb⟩

end Eval

namespace ExprTree

open Eval

variable {c : Context} {n : String}

/-! ### What evaluation does to variables -/

/-- A tree that stands for a variable assigns it, unless it is the variable. -/
theorem assigns_of_referent? : ∀ {t : ExprTree}, t.isName = false → t.referent? = some n → t.Assigns n
  | node l op left right, _, h => by
      rw [referent?] at h
      split at h
      · next hop =>
          subst hop
          exact .here h
      · cases h
  | grouped l t, hname, h => by
      rw [isName] at hname
      rw [referent?] at h
      exact .grouped (assigns_of_referent? hname h)

/-- Behind an assignment its variable has a value. -/
theorem exists_value_of_run_evaluate {t : ExprTree} (hname : t.isName = false) {p q : Progress}
    (h : (t.evaluate c).run p = (.ok (.reference n), q)) : ∃ v, q.env.get? n = some v := by
  obtain ⟨hreferent, hcarries⟩ := carriesOut_evaluate h
  have hassigns := assigns_of_referent? hname hreferent.symm
  have hinner := hcarries.bindsOnly.bound n ((t.mem_targets_ofItems t.line).2 hassigns)
  obtain ⟨v, hv⟩ := Option.isSome_iff_exists.1 hinner
  exact ⟨v, by rw [Env.get?_eq, hv, Option.some_or]⟩

/-- **Only variables that are assigned change.** -/
theorem keeps_evaluate {t : ExprTree} (h : ¬ t.Assigns n) : Keeps n (t.evaluate c) := by
  intro p o q hrun
  exact (carriesOut_evaluate hrun).2.bindsOnly.get?_eq fun hmem => h ((t.mem_targets_ofItems t.line).1 hmem)

/-! ### Both ways agree -/

theorem agree_eagerCells {ts : List ExprTree}
    (h : ∀ t ∈ ts, Agree (t.eager c) (t.evaluate c >>= resolve)) :
    Agree (eagerCells c ts) (evaluateCells c ts) := by
  induction ts with
  | nil =>
      rw [eagerCells, evaluateCells]
      exact .refl _
  | cons t ts ih =>
      have ht := h t (by simp)
      have hts := ih fun t ht => h t (by simp [ht])
      rw [eagerCells, evaluateCells]
      have hassoc := bind_assoc (t.evaluate c) resolve fun v => cell v >>= fun x =>
        evaluateCells c ts >>= fun xs => pure (x :: xs)
      rw [← hassoc]
      exact ht.bind fun v => (Agree.refl (cell v)).bind fun x => hts.bind fun xs => .refl _

theorem agree_eagerRows {rows : List (List ExprTree)} (first : Option Nat)
    (h : ∀ row ∈ rows, ∀ t ∈ row, Agree (t.eager c) (t.evaluate c >>= resolve)) :
    Agree (eagerRows c first rows) (evaluateRows c first rows) := by
  induction rows generalizing first with
  | nil =>
      rw [eagerRows, evaluateRows]
      exact .refl _
  | cons row rows ih =>
      have hrow := agree_eagerCells (h row (by simp))
      rw [eagerRows, evaluateRows]
      refine hrow.bind fun xs => (Agree.refl (checkWidth first xs.length)).bind fun _ => ?_
      exact (ih _ fun r hr => h r (by simp [hr])).bind fun xss => .refl _

/-- The operand on the left of an arithmetic operator can be looked up before the right operand is evaluated
as well as behind. -/
theorem agree_resolve_left {left right : ExprTree} {f : Value Float → Value Float → Eval (Value Float)}
    (apart : ∀ n, left.referent? = some n → ¬ right.Assigns n) {p q : Progress} {o : Operand}
    (ho : (left.evaluate c).run p = (.ok o, q)) :
    Agree (resolve o >>= fun v => (right.evaluate c >>= resolve) >>= fun w => f v w)
      ((right.evaluate c >>= resolve) >>= fun w => resolve o >>= fun v => f v w) := by
  cases o with
  | value v => exact .refl _
  | reference n =>
      have hright := keeps_evaluate (c := c) (apart n (carriesOut_evaluate ho).1.symm)
      exact (hright.bind keeps_resolve).agree_resolve

/-- A variable is evaluated to a reference to itself. -/
theorem exists_evaluate_eq_of_isName : ∀ {t : ExprTree}, t.isName = true →
    ∃ n, t.evaluate c = pure (.reference n)
  | name _ n, _ => ⟨n, by rw [evaluate]⟩
  | grouped _ t, h => by
      rw [isName] at h
      rw [evaluate]
      exact exists_evaluate_eq_of_isName h

/-- What stands on the left of an assignment is evaluated for what it assigns only. -/
theorem agree_target {left : ExprTree} (h : Agree (left.eager c) (left.evaluate c >>= resolve))
    (f : Eval (Value Float)) :
    Agree (if left.isName = true then f else left.eager c >>= fun _ => f)
      (left.evaluate c >>= fun _ => f) := by
  cases hname : left.isName with
  | true =>
      obtain ⟨n, hn⟩ := exists_evaluate_eq_of_isName (c := c) hname
      rw [if_pos rfl, hn, pure_bind]
      exact .refl f
  | false =>
      rw [if_neg Bool.false_ne_true]
      have hresolve : Agree (left.eager c >>= fun _ => f)
          (left.evaluate c >>= fun o => resolve o >>= fun _ => f) := by
        rw [← bind_assoc]
        exact h.bind fun _ => .refl f
      refine hresolve.trans ((Agree.refl _).bind_of fun p o q ho b r => ?_)
      -- looking up what has been assigned succeeds
      cases o with
      | value v => exact Iff.rfl
      | reference n =>
          obtain ⟨v, hv⟩ := exists_value_of_run_evaluate hname ho
          rw [run_bind_eq_ok_iff]
          constructor
          · rintro ⟨w, q', hw, hf⟩
            obtain ⟨-, rfl⟩ := run_resolve_reference_eq_ok_iff.1 hw
            exact hf
          · exact fun hf => ⟨v, q, run_resolve_reference_eq_ok_iff.2 ⟨hv, rfl⟩, hf⟩

/-- The variable that has just been assigned has the value that was assigned. -/
theorem agree_assign (l : Int) (n : String) (v : Value Float) :
    Agree (assign l n v >>= fun _ => pure v)
      (assign l n v >>= fun _ => resolve (.reference n)) := by
  refine (Agree.refl _).bind_of fun p u q hu w r => ?_
  rw [run_assign] at hu
  cases hu
  rw [run_pure_eq_ok_iff, run_resolve_reference_eq_ok_iff, Env.get?_set, if_pos rfl, Option.some.injEq]

/-- **Undisturbed trees have the same value in both ways.** -/
theorem Undisturbed.agree_eager {t : ExprTree} (ht : t.Undisturbed) :
    Agree (t.eager c) (t.evaluate c >>= resolve) := by
  induction ht with
  | number l x =>
      rw [eager, evaluate, pure_bind]
      exact .refl _
  | name l n =>
      rw [eager, evaluate, pure_bind]
      exact .refl _
  | literal _ ih =>
      rw [eager, evaluate, bind_assoc]
      refine (agree_eagerRows none ih).bind fun xss => ?_
      have hliteral : (Eval.literal xss >>= fun v => pure (Operand.value v)) >>= resolve =
          Eval.literal xss := by
        rw [bind_assoc]
        exact bind_pure (Eval.literal xss)
      rw [hliteral]
      exact .refl _
  | @assign l left right _ _ ihl ihr =>
      rw [eager, evaluate, if_pos rfl]
      simp only [bind_assoc, if_pos]
      refine (agree_target ihl _).trans ((Agree.refl _).bind_of fun p o q ho => ?_)
      have hreferent := (carriesOut_evaluate ho).1
      rw [← hreferent]
      cases o with
      | reference n =>
          have hrest : Agree (right.eager c >>= fun v => Eval.assign l n v >>= fun _ => pure v)
              (right.evaluate c >>= fun o' => resolve o' >>= fun v =>
                Eval.assign l n v >>= fun _ => resolve (.reference n)) := by
            rw [← bind_assoc]
            exact ihr.bind fun v => agree_assign l n v
          exact hrest q
      | value w =>
          have hrest : Agree (right.eager c >>= fun _ => (fail .assignmentTarget : Eval (Value Float)))
              (right.evaluate c >>= fun o' => resolve o' >>= fun _ => fail .assignmentTarget) := by
            rw [← bind_assoc]
            exact ihr.bind fun v => .refl _
          exact hrest q
  | @arithmetic l op left right hop _ _ apart ihl ihr =>
      rw [eager, evaluate, if_neg hop]
      have heager : Agree (left.eager c >>= fun v => right.eager c >>= fun w =>
            Eval.ofExcept (Value.apply c.zeroTolerance op v w))
          (left.evaluate c >>= fun o => resolve o >>= fun v => (right.evaluate c >>= resolve) >>= fun w =>
            Eval.ofExcept (Value.apply c.zeroTolerance op v w)) := by
        rw [← bind_assoc]
        exact ihl.bind fun v => ihr.bind fun w => .refl _
      refine heager.trans ?_
      simp only [bind_assoc, if_neg hop, pure_bind, resolve, bind_pure]
      refine (Agree.refl _).bind_of fun p o q ho => ?_
      have hleft := agree_resolve_left apart ho
        (f := fun v w => Eval.ofExcept (Value.apply c.zeroTolerance op v w))
      simp only [bind_assoc] at hleft
      exact hleft q
  | grouped _ ih =>
      rw [eager, evaluate]
      exact ih

end ExprTree

/-! ### Statements -/

/-- The value of a statement whose expression is the tree `t`, evaluated from left to right. -/
def Eval.eagerly (c : Context) (s : Statement) (t : ExprTree) : Eval (Value Float) := do
  let v ← t.eager c
  if s.storesAns then do
    Eval.bind ansName v
    pure v
  else pure v

/-- The answer of a statement and its value from left to right. -/
theorem Eval.agree_answer {c : Context} {s : Statement} {t : ExprTree}
    (hexpr : Expr.ofItems t.line t.postorder = s.expr) (ht : t.Undisturbed)
    (hans : ∀ n, t.referent? = some n → s.storesAns = false) :
    Agree (eagerly c s t) (answer c s >>= fun a => pure a.value) := by
  have hoperand : operand c s.expr = t.evaluate c := by
    rw [← hexpr, operand_ofItems_postorder]
  rw [eagerly, answer, hoperand, bind_assoc]
  refine (ht.agree_eager.bind fun v => .refl _).trans ?_
  rw [bind_assoc]
  refine (Agree.refl _).bind_of fun p o q ho => ?_
  have hreferent := (carriesOut_evaluate ho).1
  cases o with
  | reference n =>
      simp only [hans n hreferent.symm, Bool.false_eq_true, if_false, bind_assoc, pure_bind, implies_true]
  | value v =>
      simp only [resolve, pure_bind]
      cases s.storesAns
      · exact Agree.refl _ q
      · exact Agree.refl _ q

/-- The statement of the text `x+(y=x)`. -/
theorem Parse.source_sum_assign : source "x+(y=x)" = .ok
    [⟨.sequence 1 [.name 1 "x", .name 1 "y", .name 1 "x", .operator 1 .assign, .operator 1 .add],
      false, true, 1⟩] := by
  set_option maxRecDepth 100000 in cbv

namespace Statement

/-- Evaluates a statement whose expression is the tree `t` from left to right, to a value and the
environment behind it. -/
def evaluateEagerly (c : Context) (s : Statement) (t : ExprTree) (env : Env (Value Float)) :
    Except Failure (Value Float) × Env (Value Float) :=
  let r := (Eval.eagerly c s t).run ⟨env, []⟩
  (r.1, r.2.env)

/-- **Undisturbed statements can be evaluated from left to right.**  The expression of an obtained statement
is a tree.  If no operand on the right of an arithmetic operator assigns the variable on its left, the
statement and the evaluation of the tree from left to right succeed in the same environments, with the same
value and the same environment behind them, whatever the context is. -/
theorem evaluate_iff_evaluateEagerly {src : String} {s : Statement} (h : Parse.Obtained src s) :
    (∃ t : ExprTree, Expr.ofItems t.line t.postorder = s.expr) ∧
    ∀ t : ExprTree, Expr.ofItems t.line t.postorder = s.expr → t.Undisturbed →
      ∀ (c : Context) (env env' : Env (Value Float)) (v : Value Float),
        (∃ name, (s.evaluate c env).result = .ok ⟨name, v⟩ ∧ (s.evaluate c env).env = env') ↔
          s.evaluateEagerly c t env = (.ok v, env') := by
  obtain ⟨finish, start, rest, hs⟩ := h.exists_gives
  constructor
  · obtain ⟨t, -, ht⟩ := Parse.exists_tree_of_statement_gives hs
    exact ⟨t, ht⟩
  · intro t hexpr ht c env env' v
    have hagree := Eval.agree_answer (c := c) hexpr ht fun n hn => h.storesAns_of_referent? hexpr hn
    simp only [evaluate_eq_ok_iff]
    constructor
    · rintro ⟨name, q, hrun, rfl⟩
      have heager : (Eval.eagerly c s t).run ⟨env, []⟩ = (.ok v, q) :=
        (hagree _ _ _).2 (Eval.run_bind_eq_ok_iff.2 ⟨_, q, hrun, rfl⟩)
      rw [evaluateEagerly, heager]
    · intro heager
      rw [evaluateEagerly, Prod.mk.injEq] at heager
      obtain ⟨hv, rfl⟩ := heager
      obtain ⟨a, q, hrun, hpure⟩ := Eval.run_bind_eq_ok_iff.1 ((hagree _ _ _).1 (Prod.ext hv rfl))
      obtain ⟨rfl, hq⟩ := Eval.run_pure_eq_ok_iff.1 hpure
      exact ⟨a.name, q, hrun, by rw [hq]⟩

/-- The text `x+(y=x)` where `x` is two: the variable on the left is not the one that is assigned. -/
theorem evaluate_iff_evaluateEagerly_sum :
    ∃ (s : Statement) (t : ExprTree), Parse.Obtained "x+(y=x)" s ∧
      Expr.ofItems t.line t.postorder = s.expr ∧ t.Undisturbed ∧
      ∃ name,
        (s.evaluate .usual (Env.empty.set "x" (.scalar 2))).result = .ok ⟨name, .scalar (2 + 2)⟩ ∧
        (s.evaluate .usual (Env.empty.set "x" (.scalar 2))).env =
          (Env.empty.set "x" (.scalar 2)).set "y" (.scalar 2) := by
  have hobtained : Parse.Obtained "x+(y=x)" _ :=
    .inl ⟨_, Parse.source_sum_assign, List.mem_singleton_self _⟩
  let t : ExprTree := .node 1 .add (.name 1 "x") (.node 1 .assign (.name 1 "y") (.name 1 "x"))
  have ht : t.Undisturbed := by
    refine .arithmetic (by decide) (.name 1 "x") (.assign (.name 1 "y") (.name 1 "x")) ?_
    rintro n hn ha
    cases hn
    cases ha with
    | here h => simp [ExprTree.referent?] at h
    | left h => cases h
    | right h => cases h
  refine ⟨_, t, hobtained, rfl, ht, ?_⟩
  exact ((evaluate_iff_evaluateEagerly hobtained).2 t rfl ht .usual _ _ _).2 rfl

/-- The variable on the left is assigned on the right: `(x = a) + (x = b)` is `b + b`, and not `a + b` as from
left to right. -/
example (a b : Float) :
    let t : ExprTree := .node 1 .add (.node 1 .assign (.name 1 "x") (.number 1 a))
      (.node 1 .assign (.name 1 "x") (.number 1 b))
    ((t.evaluate .usual).run ⟨.empty, []⟩).1 = .ok (.value (.scalar (b + b))) ∧
      ((t.eager .usual).run ⟨.empty, []⟩).1 = .ok (.scalar (a + b)) :=
  ⟨rfl, rfl⟩

end Statement

end MatrixCalc
