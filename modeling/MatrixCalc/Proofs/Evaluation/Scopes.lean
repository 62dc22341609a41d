/-
**A statement does not see its scope.**

A statement is evaluated with bindings of its own in front of the environment, which are merged into the
environment if it succeeds.  Evaluation writes to these bindings only, and reads the same values as if it
wrote to the environment itself.  So a statement that succeeds leaves the environment that it would leave
without bindings of its own, and whatever happens, nothing behind these bindings changes.

Main definitions:

* `MatrixCalc.Eval.InScope` — an evaluation with bindings of its own stands where one without them does;
* `MatrixCalc.Eval.ScopeFree` — an evaluation does the same with and without bindings of its own;
* `MatrixCalc.Statement.evaluateInPlace` — evaluates a statement without bindings of its own.

Main results:

* `MatrixCalc.Env.commit_set` — binding and merging can be exchanged;
* `MatrixCalc.Eval.scopeFree_answer` — **statements do not see their scope**;
* `MatrixCalc.Statement.evaluate_eq_evaluateInPlace` — a statement that succeeds might as well write to the
  environment;
* `MatrixCalc.Eval.outer_answer` — nothing is written behind the bindings of a statement.
-/

import MatrixCalc.Proofs.Evaluation.Relations

set_option autoImplicit false

namespace MatrixCalc

/-! ### Binding and merging -/

namespace Bindings

variable {β : Type}

theorem setEntry_setEntry (name : String) (u v : β) (es : List (String × β)) :
    setEntry name v (setEntry name u es) = setEntry name v es := by
  induction es with
  | nil => simp [setEntry]
  | cons e es ih =>
      by_cases he : e.1 = name
      · simp [setEntry, he]
      · simp [setEntry, he, ih]

/-- Binding a name that is bound already can be exchanged with binding another one. -/
theorem setEntry_comm {m n : String} (hne : m ≠ n) (v w : β) {es : List (String × β)}
    (hn : n ∈ es.map Prod.fst) :
    setEntry n v (setEntry m w es) = setEntry m w (setEntry n v es) := by
  induction es with
  | nil => simp at hn
  | cons e es ih =>
      by_cases hm : e.1 = m
      · have hen : e.1 ≠ n := fun he => hne (hm.symm.trans he)
        simp [setEntry, hm, hne]
      · by_cases hen : e.1 = n
        · simp [setEntry, hen, hne.symm]
        · have hmem : n ∈ es.map Prod.fst := by
            rcases List.mem_cons.1 hn with h | h
            · exact absurd h.symm hen
            · exact h
          simp [setEntry, hm, hen, ih hmem]

theorem set_set (b : Bindings β) (name : String) (u v : β) : (b.set name u).set name v = b.set name v := by
  simp only [set, setEntry_setEntry]

theorem set_comm {b : Bindings β} {m n : String} (hne : m ≠ n) (v w : β) (hn : n ∈ b.names) :
    (b.set m w).set n v = (b.set n v).set m w := by
  simp only [set, setEntry_comm hne v w hn]

theorem mem_names_set {b : Bindings β} {n : String} (m : String) (w : β) (hn : n ∈ b.names) :
    n ∈ (b.set m w).names := by
  rw [names_set]
  split
  · exact hn
  · exact List.mem_append_left _ hn

theorem self_mem_names_set (b : Bindings β) (n : String) (v : β) : n ∈ (b.set n v).names := by
  rw [names_set]
  split
  · next h => exact h
  · simp

/-- Binding a name that is bound already can be put off behind bindings of other names. -/
theorem set_foldl_set {n : String} (v : β) {es : List (String × β)} (hes : n ∉ es.map Prod.fst)
    {b : Bindings β} (hn : n ∈ b.names) :
    (es.foldl (fun b e => b.set e.1 e.2) b).set n v = es.foldl (fun b e => b.set e.1 e.2) (b.set n v) := by
  induction es generalizing b with
  | nil => rfl
  | cons e es ih =>
      simp only [List.map_cons, List.mem_cons, not_or] at hes
      obtain ⟨hne, hes⟩ := hes
      rw [List.foldl_cons, List.foldl_cons, ih hes (mem_names_set e.1 e.2 hn),
        set_comm (Ne.symm hne) v e.2 hn]

/-- Binding a name among others that are to be bound is the same as binding it behind them. -/
theorem foldl_set_setEntry (n : String) (v : β) {es : List (String × β)}
    (hes : (es.map Prod.fst).Nodup) (b : Bindings β) :
    (setEntry n v es).foldl (fun b e => b.set e.1 e.2) b =
      (es.foldl (fun b e => b.set e.1 e.2) b).set n v := by
  induction es generalizing b with
  | nil => rfl
  | cons e es ih =>
      simp only [List.map_cons, List.nodup_cons] at hes
      obtain ⟨hnot, hes⟩ := hes
      by_cases he : e.1 = n
      · subst he
        rw [setEntry, if_pos rfl, List.foldl_cons, List.foldl_cons,
          set_foldl_set v hnot (self_mem_names_set b e.1 e.2), set_set]
      · rw [setEntry, if_neg he, List.foldl_cons, List.foldl_cons, ih hes]

theorem setAll_set (b c : Bindings β) (n : String) (v : β) :
    b.setAll (c.set n v) = (b.setAll c).set n v :=
  foldl_set_setEntry n v c.nodup b

end Bindings

namespace Env

variable {β : Type}

/-- Binding a name and merging can be exchanged. -/
theorem commit_set (e child : Env β) (n : String) (v : β) :
    e.commit (child.set n v) = (e.commit child).set n v := by
  simp only [commit, set, Bindings.setAll_set]

/-- New bindings in which nothing is bound change nothing when they are merged. -/
theorem commit_push (e : Env β) : e.commit e.push = e := by
  simp only [commit, push, Bindings.setAll_empty]

end Env

/-! ### With and without bindings of its own -/

namespace Eval

variable {α : Type}

/-- An evaluation that has come to `p` with bindings of its own in front of `base` has come to `q` without
them. -/
structure InScope (base : Env (Value Float)) (p q : Progress) : Prop where
  outer : p.env.outer = base.chain
  merged : base.commit p.env = q.env
  assigned : p.assigned = q.assigned

/-- An evaluation does the same with bindings of its own as without. -/
def ScopeFree (m : Eval α) : Prop :=
  ∀ (base : Env (Value Float)) (p q : Progress), InScope base p q →
    (m.run p).1 = (m.run q).1 ∧ InScope base (m.run p).2 (m.run q).2

/-- Variables have the same values before and after merging, and binding one and merging can be exchanged. -/
theorem compatible_inScope (base : Env (Value Float)) :
    Progress.Compatible (fun _ => True) (InScope base) where
  get?_eq h _ := by rw [← h.merged, Env.get?_commit base _ h.outer]
  bind h _ v := by
    refine ⟨h.outer, ?_, h.assigned⟩
    rw [Progress.bind, Progress.bind, Env.commit_set, h.merged]
  note h a := by
    refine ⟨h.outer, h.merged, ?_⟩
    rw [Progress.note, Progress.note, h.assigned]

/-- **Statements do not see their scope.** -/
theorem scopeFree_answer (c : Context) (s : Statement) : ScopeFree (answer c s) := by
  intro base p q h
  have hrespects := respects_answer (compatible_inScope base) c s (fun _ _ => trivial) (fun _ => trivial)
  obtain ⟨hresult, hscope, -⟩ := hrespects p q h
  exact ⟨hresult, hscope⟩

theorem inScope_push (env : Env (Value Float)) : InScope env ⟨env.push, []⟩ ⟨env, []⟩ :=
  ⟨rfl, env.commit_push, rfl⟩

/-- **Nothing is written behind the bindings of a statement**, whether it succeeds or fails. -/
theorem outer_answer (c : Context) (s : Statement) (env : Env (Value Float)) :
    ((answer c s).run ⟨env.push, []⟩).2.env.outer = env.chain :=
  (scopeFree_answer c s _ _ _ (inScope_push env)).2.outer

end Eval

namespace Statement

/-- Evaluates a statement in an environment without bindings of its own. -/
def evaluateInPlace (c : Context) (s : Statement) (env : Env (Value Float)) : Evaluated :=
  let r := (Eval.answer c s).run ⟨env, []⟩
  ⟨r.1, r.2.env, r.2.assigned.reverse⟩

/-- **A statement that succeeds might as well write to the environment itself.** -/
theorem evaluate_eq_evaluateInPlace {c : Context} {s : Statement} {env : Env (Value Float)} {a : Answer}
    (h : (s.evaluate c env).result = .ok a) : s.evaluate c env = s.evaluateInPlace c env := by
  obtain ⟨hresult, hscope⟩ := Eval.scopeFree_answer c s _ _ _ (Eval.inScope_push env)
  have hok : ((Eval.answer c s).run ⟨env.push, []⟩).1 = .ok a := h
  have hmerged := hscope.merged
  have hassigned := hscope.assigned
  simp only [evaluate, evaluateInPlace, ← hresult, ← hmerged, ← hassigned, hok]

/-- Whether a statement succeeds does not depend on its scope. -/
theorem result_evaluate (c : Context) (s : Statement) (env : Env (Value Float)) :
    (s.evaluate c env).result = (s.evaluateInPlace c env).result :=
  (Eval.scopeFree_answer c s _ _ _ (Eval.inScope_push env)).1

/-- A statement succeeds if its answer can be found in the environment itself. -/
theorem evaluate_eq_ok_iff {c : Context} {s : Statement} {env env' : Env (Value Float)} {a : Answer} :
    (s.evaluate c env).result = .ok a ∧ (s.evaluate c env).env = env' ↔
      ∃ q : Progress, (Eval.answer c s).run ⟨env, []⟩ = (.ok a, q) ∧ q.env = env' := by
  constructor
  · rintro ⟨hresult, henv⟩
    have hplace := evaluate_eq_evaluateInPlace hresult
    rw [hplace] at hresult henv
    exact ⟨_, Prod.ext hresult rfl, henv⟩
  · rintro ⟨q, hrun, rfl⟩
    have hresult : (s.evaluate c env).result = .ok a := by
      rw [result_evaluate]
      exact congrArg Prod.fst hrun
    refine ⟨hresult, ?_⟩
    rw [evaluate_eq_evaluateInPlace hresult]
    exact congrArg (fun r => r.2.env) hrun

end Statement

end MatrixCalc
