/-
**Independent statements can be exchanged.**

What a statement gives depends on the variables that occur in it only, and on `ans` if it may store its value
there; and it changes its targets and `ans` only.  So if neither of two statements can change a variable that
counts for the other one, each gives the same whether it comes first or last, be it an answer or a failure, and
all variables have the same values behind both.

Main definitions:

* `MatrixCalc.Statement.writes` — the variables that a statement can change;
* `MatrixCalc.Statement.footprint` — the variables that count for a statement;
* `MatrixCalc.Statement.Apart` — neither of two statements can change a variable that counts for the other one;
* `MatrixCalc.Env.AgreeOn` — two environments bind some variables alike.

Main results:

* `MatrixCalc.Statement.evaluate_congr` — only the footprint of a statement counts for what it gives;
* `MatrixCalc.Statement.inner_get?_evaluate` — a statement changes nothing but what it writes;
* `MatrixCalc.Statement.Apart.exchange` — **independent statements can be exchanged**.
-/

import MatrixCalc.Proofs.Evaluation.Frame

set_option autoImplicit false

namespace MatrixCalc

/-! ### Environments that agree -/

namespace Env

variable {β : Type} {N : String → Prop} {e e' : Env β} {n : String}

/-- Two environments bind the variables `N` alike in their innermost bindings, and behind these they are the
same. -/
structure AgreeOn (N : String → Prop) (e e' : Env β) : Prop where
  outer : e.outer = e'.outer
  inner_get?_eq (n : String) (hn : N n) : e.inner.get? n = e'.inner.get? n

namespace AgreeOn

theorem symm (h : AgreeOn N e e') : AgreeOn N e' e :=
  ⟨h.outer.symm, fun n hn => (h.inner_get?_eq n hn).symm⟩

theorem get?_eq (h : AgreeOn N e e') (hn : N n) : e.get? n = e'.get? n := by
  rw [Env.get?_eq, Env.get?_eq, h.outer, h.inner_get?_eq n hn]

theorem set (h : AgreeOn N e e') (n : String) (v : β) : AgreeOn N (e.set n v) (e'.set n v) where
  outer := h.outer
  inner_get?_eq m hm := by
    rw [Env.set, Env.set, Bindings.get?_set, Bindings.get?_set, h.inner_get?_eq m hm]

end AgreeOn

end Env

/-- Environments that agree give the variables the same values, and they agree behind bindings and notes. -/
theorem Progress.compatible_agreeOn (N : String → Prop) :
    Compatible N fun p q => Env.AgreeOn N p.env q.env where
  get?_eq h hn := h.get?_eq hn
  bind h _ v := h.set _ v
  note h _ := h

namespace Statement

/-- The variables that a statement can change: its targets, and `ans` if it may store its value there. -/
def writes (s : Statement) : List String := s.expr.targets ++ if s.storesAns then [ansName] else []

/-- The variables that count for a statement: those that occur in it, and `ans` if it may store its value
there. -/
def footprint (s : Statement) : List String := s.expr.names ++ if s.storesAns then [ansName] else []

variable {s s₁ s₂ : Statement} {c : Context} {env env' : Env (Value Float)} {n : String}

theorem writes_subset_footprint (s : Statement) : s.writes ⊆ s.footprint := by
  intro n hn
  rcases List.mem_append.1 hn with hn | hn
  · exact List.mem_append_left _ (Expr.mem_names_of_mem_targets hn)
  · exact List.mem_append_right _ hn

theorem mem_of_mem_storedIn (s : Statement) (h : n ∈ s.storedIn) :
    n ∈ if s.storesAns then [ansName] else [] := by
  rw [storedIn] at h
  split at h
  · next hstores =>
      rw [if_pos hstores.1]
      exact h
  · cases h

/-! ### What counts for a statement -/

/-- **Only its footprint counts for a statement**: in environments that agree on it the statement gives the same,
and they agree behind it. -/
theorem evaluate_congr (h : Env.AgreeOn (· ∈ s.footprint) env env') :
    (s.evaluate c env).result = (s.evaluate c env').result ∧
      Env.AgreeOn (· ∈ s.footprint) (s.evaluate c env).env (s.evaluate c env').env := by
  have hnames : ∀ n ∈ s.expr.names, n ∈ s.footprint := fun n hn => List.mem_append_left _ hn
  have hans : s.storesAns = true → ansName ∈ s.footprint := fun hs => by simp [footprint, hs]
  have hcompatible := Progress.compatible_agreeOn (· ∈ s.footprint)
  obtain ⟨hresult, hagree, -⟩ := Eval.respects_answer hcompatible c s hnames hans ⟨env, []⟩ ⟨env', []⟩ h
  have heq : (s.evaluate c env).result = (s.evaluate c env').result := by
    rw [result_evaluate, result_evaluate]
    exact hresult
  refine ⟨heq, ?_⟩
  cases hcase : (s.evaluate c env).result with
  | error e =>
      rw [env_evaluate_of_error hcase, env_evaluate_of_error (heq.symm.trans hcase)]
      exact h
  | ok a =>
      rw [evaluate_eq_evaluateInPlace hcase, evaluate_eq_evaluateInPlace (heq.symm.trans hcase)]
      exact hagree

/-! ### What a statement changes -/

/-- **A statement changes nothing but what it writes**, whether it succeeds or fails. -/
theorem inner_get?_evaluate (c : Context) (env : Env (Value Float)) (hn : n ∉ s.writes) :
    (s.evaluate c env).env.inner.get? n = env.inner.get? n := by
  cases hcase : (s.evaluate c env).result with
  | error e => rw [env_evaluate_of_error hcase]
  | ok a =>
      obtain ⟨q, hcarries, hanswers, -⟩ := exists_answers hcase
      refine (hanswers.bindsOnly hcarries.bindsOnly).inner_get?_eq n fun hmem => hn ?_
      rw [List.mem_append] at hmem
      exact List.mem_append.2 (hmem.imp id fun hmem => s.mem_of_mem_storedIn hmem)

/-- What a statement leaves agrees with what was there before on all that the statement does not write. -/
theorem agreeOn_evaluate {N : String → Prop} (c : Context) (env : Env (Value Float))
    (h : ∀ n ∈ s.writes, ¬ N n) : Env.AgreeOn N env (s.evaluate c env).env where
  outer := (outer_evaluate c s env).symm
  inner_get?_eq n hn := (inner_get?_evaluate c env fun hmem => h n hmem hn).symm

/-! ### Two statements -/

/-- Neither of two statements can change a variable that counts for the other one. -/
structure Apart (s₁ s₂ : Statement) : Prop where
  left : ∀ n ∈ s₁.writes, n ∉ s₂.footprint
  right : ∀ n ∈ s₂.writes, n ∉ s₁.footprint

instance (s₁ s₂ : Statement) : Decidable (Apart s₁ s₂) :=
  decidable_of_iff ((∀ n ∈ s₁.writes, n ∉ s₂.footprint) ∧ ∀ n ∈ s₂.writes, n ∉ s₁.footprint)
    ⟨fun h => ⟨h.1, h.2⟩, fun h => ⟨h.left, h.right⟩⟩

namespace Apart

theorem symm (h : Apart s₁ s₂) : Apart s₂ s₁ := ⟨h.right, h.left⟩

/-- A statement gives the same behind one that is apart from it. -/
theorem result_evaluate_behind (h : Apart s₁ s₂) (c : Context) (env : Env (Value Float)) :
    (s₂.evaluate c (s₁.evaluate c env).env).result = (s₂.evaluate c env).result :=
  (evaluate_congr (agreeOn_evaluate c env h.left)).1.symm

/-- What the second statement does not write is the same behind both in either order. -/
theorem inner_get?_exchange (h : Apart s₁ s₂) (c : Context) (env : Env (Value Float)) (hn : n ∉ s₂.writes) :
    (s₂.evaluate c (s₁.evaluate c env).env).env.inner.get? n =
      (s₁.evaluate c (s₂.evaluate c env).env).env.inner.get? n := by
  rw [inner_get?_evaluate c _ hn]
  by_cases hmem : n ∈ s₁.writes
  · -- the first statement leaves the same wherever it comes
    have hcongr := (evaluate_congr (c := c) (agreeOn_evaluate c env h.right)).2
    exact hcongr.inner_get?_eq n (s₁.writes_subset_footprint hmem)
  · rw [inner_get?_evaluate c _ hmem, inner_get?_evaluate c _ hmem, inner_get?_evaluate c _ hn]

/-- **Independent statements can be exchanged.**  If neither of two statements can change a variable that counts
for the other one, each gives the same answer or fails in the same way in both orders, and behind both the
environments bind all variables alike. -/
theorem exchange (h : Apart s₁ s₂) (c : Context) (env : Env (Value Float)) :
    (s₂.evaluate c (s₁.evaluate c env).env).result = (s₂.evaluate c env).result ∧
      (s₁.evaluate c (s₂.evaluate c env).env).result = (s₁.evaluate c env).result ∧
      Env.AgreeOn (fun _ => True) (s₂.evaluate c (s₁.evaluate c env).env).env
        (s₁.evaluate c (s₂.evaluate c env).env).env ∧
      ∀ n, (s₂.evaluate c (s₁.evaluate c env).env).env.get? n =
        (s₁.evaluate c (s₂.evaluate c env).env).env.get? n := by
  have hagree : Env.AgreeOn (fun _ => True) (s₂.evaluate c (s₁.evaluate c env).env).env
      (s₁.evaluate c (s₂.evaluate c env).env).env := by
    refine ⟨by simp only [outer_evaluate], fun n _ => ?_⟩
    by_cases hn : n ∈ s₂.writes
    · have hnot : n ∉ s₁.writes := fun hmem => h.right n hn (s₁.writes_subset_footprint hmem)
      exact (h.symm.inner_get?_exchange c env hnot).symm
    · exact h.inner_get?_exchange c env hn
  exact ⟨h.result_evaluate_behind c env, h.symm.result_evaluate_behind c env, hagree,
    fun n => hagree.get?_eq trivial⟩

end Apart

/-- The statement of the text `x=y`. -/
theorem source_assign : Parse.source "x=y" = .ok
    [⟨.sequence 1 [.name 1 "x", .name 1 "y", .operator 1 .assign], false, true, 1⟩] := by
  set_option maxRecDepth 100000 in cbv

/-- The statement of the text `y/z`. -/
theorem source_divide : Parse.source "y/z" = .ok
    [⟨.sequence 1 [.name 1 "y", .name 1 "z", .operator 1 .divide], true, true, 1⟩] := by
  set_option maxRecDepth 100000 in cbv

/-- The texts `x=y` and `y/z` where only `y` has a value: the second fails in both orders. -/
theorem exchange_assign_divide :
    ∃ s₁ s₂ : Statement, Parse.Obtained "x=y" s₁ ∧ Parse.Obtained "y/z" s₂ ∧ Apart s₁ s₂ ∧
      (s₂.evaluate .usual (s₁.evaluate .usual (Env.empty.set "y" (.scalar 1))).env).result =
        .error (.eval (.unbound "z")) ∧
      ∀ n, (s₂.evaluate .usual (s₁.evaluate .usual (Env.empty.set "y" (.scalar 1))).env).env.get? n =
        (s₁.evaluate .usual (s₂.evaluate .usual (Env.empty.set "y" (.scalar 1))).env).env.get? n := by
  have hobtained₁ : Parse.Obtained "x=y" _ := .inl ⟨_, source_assign, List.mem_singleton_self _⟩
  have hobtained₂ : Parse.Obtained "y/z" _ := .inl ⟨_, source_divide, List.mem_singleton_self _⟩
  have hapart : Apart ⟨.sequence 1 [.name 1 "x", .name 1 "y", .operator 1 .assign], false, true, 1⟩
      ⟨.sequence 1 [.name 1 "y", .name 1 "z", .operator 1 .divide], true, true, 1⟩ := by decide
  obtain ⟨hresult, -, -, hget⟩ := Apart.exchange hapart .usual (Env.empty.set "y" (.scalar 1))
  exact ⟨_, _, hobtained₁, hobtained₂, hapart, hresult.trans rfl, hget⟩

end Statement

end MatrixCalc
