/-
**What a parser has read before does not matter.**

Between statements a parser that counts the literals it is in keeps two things, where it stands and its
counter.  Statements that are read or fail, separators that are passed over and recovery, from whatever token,
leave the counter at zero.  So only the place counts: from there on the parser does the same as a new one
that is given only the tokens from this place on, and stands as many tokens further.

Main definitions:

* `MatrixCalc.Parse.Reader` — a cursor with a counter;
* `MatrixCalc.Parse.Step`, `MatrixCalc.Parse.Answer` — what a reader is asked to do, and what it gives;
* `MatrixCalc.Parse.Reader.step`, `MatrixCalc.Parse.Reader.run` — one step, and several in turn;
* `MatrixCalc.Parse.Reader.after` — the reader behind a history.

Main results:

* `MatrixCalc.Parse.Reader.statement_mk` — with the counter at zero, a reader reads statements as a cursor does;
* `MatrixCalc.Parse.Reader.exists_run` — no step leaves the counter raised;
* `MatrixCalc.Parse.Reader.run_behind` — further behind, a reader does the same;
* `MatrixCalc.Parse.Reader.statement_ends` — what is behind the separator of a statement does not matter;
* `MatrixCalc.Parse.Reader.run_of_history` — **what a parser has read before does not matter**.
-/

import MatrixCalc.Proofs.Parse.Lines
import MatrixCalc.Proofs.Parse.Recovery

set_option autoImplicit false

namespace MatrixCalc

namespace Parse

/-! ### Places further behind -/

namespace Cursor

/-- The tokens that are `k` further than some tokens of a text, also if places are counted from its end. -/
theorem rest?_add {source : Tokens} {i : Int} {ts : List Token} (h : (⟨source, i⟩ : Cursor).rest? = .ok ts)
    {k : Nat} (hk : k ≤ ts.length) : (⟨source, i + k⟩ : Cursor).rest? = .ok (ts.drop k) := by
  simp only [rest?] at h
  split at h
  · next hbounds =>
      obtain rfl := Except.ok.inj h
      rw [List.length_drop] at hk
      have hoffset : (⟨source, i + k⟩ : Cursor).offset = (⟨source, i⟩ : Cursor).offset + k := by
        simp only [offset] at hbounds hk ⊢
        split at hk <;> split <;> omega
      have hbounds' : 0 ≤ (⟨source, i⟩ : Cursor).offset + k ∧
          (⟨source, i⟩ : Cursor).offset + k ≤ source.list.length := by
        omega
      have hnat : ((⟨source, i⟩ : Cursor).offset + k).toNat = (⟨source, i⟩ : Cursor).offset.toNat + k := by
        omega
      rw [rest?, hoffset, if_pos hbounds', List.drop_drop, hnat]
  · cases h

end Cursor

/-! ### Readers -/

/-- A cursor, and in how many literals the parser counts itself to be. -/
structure Reader where
  cursor : Cursor
  depth : Nat

/-- What a reader is asked to do. -/
inductive Step where
  /-- Read a statement. -/
  | statement
  /-- Pass over separators. -/
  | skipSeparators
  /-- Pass over the failed statement that starts at a token. -/
  | recover (start : Int)

/-- What a reader gives. -/
inductive Answer where
  /-- A statement. -/
  | statement (s : Statement)
  /-- Separators have been passed. -/
  | passed
  /-- The tokens of a failed statement. -/
  | skipped (ts : List Token)

namespace Step

/-- The step of a reader whose places are `i` further behind. -/
def shift (i : Int) : Step → Step
  | statement => statement
  | skipSeparators => skipSeparators
  | recover start => recover (i + start)

/-- Recovery starts at one of `n` tokens, or at the end behind them. -/
def Within (n : Nat) : Step → Prop
  | recover start => ∃ k : Nat, k ≤ n ∧ start = k
  | _ => True

end Step

namespace Reader

/-- The reader before the first token. -/
def start (source : Tokens) : Reader := ⟨.start source, 0⟩

/-- Reads a statement. -/
def statement (r : Reader) : Except Cursor.Failure Statement × Reader :=
  match r.cursor.rest? with
  | .error e => (.error e, r)
  | .ok ts =>
      let o := Counting.statement r.cursor.source.finish ts r.depth
      (o.1.result.mapError .parse, ⟨r.cursor.moved ts o.1.rest, o.2⟩)

/-- Does one step. -/
def step (r : Reader) : Step → Except Cursor.Failure Answer × Reader
  | .statement => (r.statement.1.map .statement, r.statement.2)
  | .skipSeparators =>
      match r.cursor.skipSeparators with
      | .error e => (.error e, r)
      | .ok c => (.ok .passed, { r with cursor := c })
  | .recover start => ((r.cursor.recover start).1.map .skipped, { r with cursor := (r.cursor.recover start).2 })

/-- Does steps in turn; gives what each of them gives, and where the reader stands behind it. -/
def run : List Step → Reader → List (Except Cursor.Failure Answer × Int) × Reader
  | [], r => ([], r)
  | s :: steps, r =>
      let behind := run steps (r.step s).2
      (((r.step s).1, (r.step s).2.cursor.index) :: behind.1, behind.2)

/-! ### The counter between steps -/

/-- **With the counter at zero, a reader reads statements as a cursor does**, and the counter is zero again. -/
theorem statement_mk (c : Cursor) :
    statement ⟨c, 0⟩ = ((c.run Parse.statement).1, ⟨(c.run Parse.statement).2, 0⟩) := by
  simp only [statement, Cursor.run, Counting.statement_zero]
  cases c.rest? <;> rfl

/-- The statement of a reader at some tokens of a text. -/
theorem statement_of_rest? {source : Tokens} {i : Int} {ts : List Token}
    (h : (⟨source, i⟩ : Cursor).rest? = .ok ts) :
    statement ⟨⟨source, i⟩, 0⟩ = ((Parse.statement source.finish ts).result.mapError .parse,
      ⟨⟨source, i + (ts.length - (Parse.statement source.finish ts).rest.length : Nat)⟩, 0⟩) := by
  rw [statement_mk, Cursor.run, h]
  rfl

/-- No step leaves the counter raised or changes the text. -/
theorem exists_step (source : Tokens) (i : Int) (s : Step) :
    ∃ j, (step ⟨⟨source, i⟩, 0⟩ s).2 = ⟨⟨source, j⟩, 0⟩ := by
  cases s with
  | statement =>
      simp only [step, statement_mk, Cursor.run]
      cases (⟨source, i⟩ : Cursor).rest? with
      | error e => exact ⟨i, rfl⟩
      | ok ts => exact ⟨_, rfl⟩
  | skipSeparators =>
      simp only [step, Cursor.skipSeparators]
      cases (⟨source, i⟩ : Cursor).rest? with
      | error e => exact ⟨i, rfl⟩
      | ok ts => exact ⟨_, rfl⟩
  | recover start =>
      simp only [step, Cursor.recover]
      cases (⟨source, start⟩ : Cursor).rest? with
      | error e => exact ⟨start, rfl⟩
      | ok ts => exact ⟨_, rfl⟩

/-- **No history leaves the counter raised**, by induction on its steps. -/
theorem exists_run (source : Tokens) (steps : List Step) (i : Int) :
    ∃ j, (run steps ⟨⟨source, i⟩, 0⟩).2 = ⟨⟨source, j⟩, 0⟩ := by
  induction steps generalizing i with
  | nil => exact ⟨i, rfl⟩
  | cons s steps ih =>
      obtain ⟨j, hj⟩ := exists_step source i s
      rw [run, hj]
      exact ih j

/-! ### Readers further behind -/

section

variable {source : Tokens} {i : Int} {ts : List Token}

/-- **A step further behind gives the same**: one reader is in the text, the other has only the tokens from
its place `i` on, and both are `k` tokens further than that. -/
theorem step_behind (hrest : (⟨source, i⟩ : Cursor).rest? = .ok ts) {k : Nat} (hk : k ≤ ts.length) {s : Step}
    (hs : s.Within ts.length) :
    ∃ (answer : Except Cursor.Failure Answer) (k' : Nat), k' ≤ ts.length ∧
      step ⟨⟨source, i + k⟩, 0⟩ (s.shift i) = (answer, ⟨⟨source, i + k'⟩, 0⟩) ∧
      step ⟨⟨⟨ts, source.finish⟩, k⟩, 0⟩ s = (answer, ⟨⟨⟨ts, source.finish⟩, k'⟩, 0⟩) := by
  -- what both come to if they have come from the token `l` to other tokens
  have hmoved : ∀ (l : Nat) (back : List Token), l ≤ ts.length → ∃ k' : Nat, k' ≤ ts.length ∧
      (⟨source, i + l⟩ : Cursor).moved (ts.drop l) back = ⟨source, i + k'⟩ ∧
      (⟨⟨ts, source.finish⟩, l⟩ : Cursor).moved (ts.drop l) back = ⟨⟨ts, source.finish⟩, k'⟩ := by
    intro l back hl
    refine ⟨l + ((ts.drop l).length - back.length), ?_, ?_, ?_⟩
    · rw [List.length_drop]
      omega
    · simp only [Cursor.moved, Int.natCast_add, Int.add_assoc]
    · simp only [Cursor.moved, Int.natCast_add]
  have hhere := Cursor.rest?_add hrest hk
  have hfresh := Cursor.rest?_natCast ⟨ts, source.finish⟩ hk
  cases s with
  | statement =>
      obtain ⟨k', hk', hmoved, hmoved'⟩ := hmoved k (Parse.statement source.finish (ts.drop k)).rest hk
      refine ⟨((Parse.statement source.finish (ts.drop k)).result.mapError .parse).map .statement, k', hk', ?_, ?_⟩
      · simp only [Step.shift, step, statement_mk, Cursor.run, hhere, hmoved]
      · simp only [step, statement_mk, Cursor.run, hfresh, hmoved']
  | skipSeparators =>
      obtain ⟨k', hk', hmoved, hmoved'⟩ := hmoved k (Parse.skipSeparators (ts.drop k)) hk
      refine ⟨.ok .passed, k', hk', ?_, ?_⟩
      · simp only [Step.shift, step, Cursor.skipSeparators, hhere, Except.map, hmoved]
      · simp only [step, Cursor.skipSeparators, hfresh, Except.map, hmoved']
  | recover start =>
      obtain ⟨l, hl, rfl⟩ := hs
      have hhere' := Cursor.rest?_add hrest hl
      have hfresh' := Cursor.rest?_natCast ⟨ts, source.finish⟩ hl
      obtain ⟨k', hk', hmoved, hmoved'⟩ := hmoved l (Parse.recover (ts.drop l)).2 hl
      refine ⟨.ok (.skipped (Parse.recover (ts.drop l)).1), k', hk', ?_, ?_⟩
      · simp only [Step.shift, step, Cursor.recover, hhere', Except.map, hmoved]
      · simp only [step, Cursor.recover, hfresh', Except.map, hmoved']

/-- **Steps further behind give the same**, by induction on the steps. -/
theorem run_behind (hrest : (⟨source, i⟩ : Cursor).rest? = .ok ts) {steps : List Step}
    (hsteps : ∀ s ∈ steps, s.Within ts.length) {k : Nat} (hk : k ≤ ts.length) :
    ∃ (answers : List (Except Cursor.Failure Answer × Int)) (k' : Nat), k' ≤ ts.length ∧
      run (steps.map (Step.shift i)) ⟨⟨source, i + k⟩, 0⟩ =
        (answers.map fun x => (x.1, i + x.2), ⟨⟨source, i + k'⟩, 0⟩) ∧
      run steps ⟨⟨⟨ts, source.finish⟩, k⟩, 0⟩ = (answers, ⟨⟨⟨ts, source.finish⟩, k'⟩, 0⟩) := by
  induction steps generalizing k with
  | nil => exact ⟨[], k, hk, rfl, rfl⟩
  | cons s steps ih =>
      obtain ⟨answer, k₁, hk₁, hstep, hstep'⟩ := step_behind hrest hk (hsteps s List.mem_cons_self)
      obtain ⟨answers, k', hk', hrun, hrun'⟩ := ih (fun s hs => hsteps s (List.mem_cons_of_mem _ hs)) hk₁
      refine ⟨(answer, k₁) :: answers, k', hk', ?_, ?_⟩
      · rw [List.map_cons, run, hstep, hrun]
        rfl
      · rw [run, hstep', hrun']

end

/-- The reader of a text behind a history of steps. -/
def after (source : Tokens) (history : List Step) : Reader := (run history (start source)).2

/-- Behind any history the counter is at zero. -/
theorem after_eq (source : Tokens) (history : List Step) :
    after source history = ⟨⟨source, (after source history).cursor.index⟩, 0⟩ := by
  obtain ⟨j, hj⟩ := exists_run source history 0
  have hafter : after source history = ⟨⟨source, j⟩, 0⟩ := hj
  rw [hafter]

/-- A statement ends with the text, or with a separator.  Then it is read at the tokens up to this separator,
whatever text they stand in and whatever is behind them. -/
theorem statement_ends {source : Tokens} {i : Int} {ts : List Token} {s : Statement} {r : Reader}
    (hrest : (⟨source, i⟩ : Cursor).rest? = .ok ts) (h : statement ⟨⟨source, i⟩, 0⟩ = (.ok s, r)) :
    (r.cursor.rest? = .ok [] ∧ ∃ e, (expression source.finish false ts).Gives e []) ∨
    ∃ span u back, ts = span ++ u :: back ∧ u.kind.isSeparator = true ∧
      r = ⟨⟨source, i + (span.length + 1 : Nat)⟩, 0⟩ ∧
      ∀ (source' : Tokens) (i' : Int) (other : List Token),
        (⟨source', i'⟩ : Cursor).rest? = .ok (span ++ u :: other) →
        statement ⟨⟨source', i'⟩, 0⟩ = (.ok s, ⟨⟨source', i' + (span.length + 1 : Nat)⟩, 0⟩) := by
  have hmany : ∀ span back : List Token, ∀ u, (span ++ u :: back).length - back.length = span.length + 1 := by
    intro span back u
    rw [List.length_append, List.length_cons]
    omega
  rw [statement_of_rest? hrest] at h
  obtain ⟨hresult, rfl⟩ := Prod.mk.inj h
  have hgives : (Parse.statement source.finish ts).Gives s (Parse.statement source.finish ts).rest := by
    refine ⟨?_, rfl⟩
    cases hr : (Parse.statement source.finish ts).result with
    | error e =>
        rw [hr] at hresult
        cases hresult
    | ok s' =>
        rw [hr] at hresult
        exact congrArg _ (Except.ok.inj hresult)
  rcases statement_local hgives with ⟨hnil, e, he, -⟩ | ⟨span, u, heq, hseparator, hlocal⟩
  · refine .inl ⟨?_, e, he⟩
    rw [hnil, List.length_nil, Nat.sub_zero, Cursor.rest?_add hrest (Nat.le_refl _), List.drop_length]
  · refine .inr ⟨span, u, _, heq, hseparator, ?_, fun source' i' other hother => ?_⟩
    · have hlength := congrArg List.length heq
      rw [← hmany span _ u, ← hlength]
    · obtain ⟨hresult', hback⟩ := hlocal source'.finish other
      rw [statement_of_rest? hother, hresult', hback, hmany]
      rfl

/-- **What a parser has read before does not matter.**  Let a reader stand, after any history, at the tokens
`ts` of its text.  Its counter is at zero.  If it goes on with some steps, it gives the same as a reader that
has only these tokens, at places that are as many further; recovery starts from the same tokens then.  And a
statement that it reads there ends with the text, or it ends with a separator; in this case every reader that
stands, after any history of any text, at the tokens up to this separator, with whatever others behind them,
reads the same statement. -/
theorem run_of_history (source : Tokens) (history steps : List Step) {ts : List Token}
    (hrest : (after source history).cursor.rest? = .ok ts) (hsteps : ∀ s ∈ steps, s.Within ts.length) :
    (after source history).depth = 0 ∧
    (run (steps.map (Step.shift (after source history).cursor.index)) (after source history)).1 =
      (run steps (start ⟨ts, source.finish⟩)).1.map
        (fun x => (x.1, (after source history).cursor.index + x.2)) ∧
    ∀ s r, (after source history).statement = (.ok s, r) →
      (r.cursor.rest? = .ok [] ∧ ∃ e, (expression source.finish false ts).Gives e []) ∨
      ∃ span u back, ts = span ++ u :: back ∧ u.kind.isSeparator = true ∧
        r.cursor.index = (after source history).cursor.index + (span.length + 1 : Nat) ∧
        ∀ (source' : Tokens) (history' : List Step) (other : List Token),
          (after source' history').cursor.rest? = .ok (span ++ u :: other) →
          (after source' history').statement = (.ok s,
            ⟨⟨source', (after source' history').cursor.index + (span.length + 1 : Nat)⟩, 0⟩) := by
  have hafter := after_eq source history
  generalize (after source history).cursor.index = i at hafter ⊢
  rw [hafter] at hrest ⊢
  refine ⟨rfl, ?_, fun s r h => ?_⟩
  · obtain ⟨answers, k', -, hrun, hrun'⟩ := run_behind hrest hsteps (Nat.zero_le _)
    rw [Int.natCast_zero, Int.add_zero] at hrun
    have hstart : start ⟨ts, source.finish⟩ = ⟨⟨⟨ts, source.finish⟩, (0 : Nat)⟩, 0⟩ := rfl
    rw [hrun, hstart, hrun']
  · rcases statement_ends hrest h with hends | ⟨span, u, back, heq, hseparator, rfl, hother⟩
    · exact .inl hends
    · refine .inr ⟨span, u, back, heq, hseparator, rfl, fun source' history' other hrest' => ?_⟩
      have hafter' := after_eq source' history'
      rw [hafter'] at hrest' ⊢
      exact hother source' _ other hrest'

theorem after_parenInLiteral :
    after Cursor.parenInLiteral [.statement, .recover 0] = ⟨⟨Cursor.parenInLiteral, 6⟩, 0⟩ := by
  set_option maxRecDepth 100000 in cbv

/-- The first statement of this text fails in a parenthesis in a literal.  Behind recovery from it the second
one is read, and passed over, as if it stood alone. -/
theorem run_of_history_parenInLiteral :
    (after Cursor.parenInLiteral [.statement, .recover 0]).cursor.rest? = .ok [⟨.name, "b", ⟨6, 3, 1⟩⟩] ∧
    (after Cursor.parenInLiteral [.statement, .recover 0]).depth = 0 ∧
    (run ([.statement, .recover 0].map (Step.shift 6))
        (after Cursor.parenInLiteral [.statement, .recover 0])).1 =
      (run [.statement, .recover 0] (start ⟨[⟨.name, "b", ⟨6, 3, 1⟩⟩], ⟨7, 3, 2⟩⟩)).1.map
        (fun x => (x.1, 6 + x.2)) := by
  have hrest : (after Cursor.parenInLiteral [.statement, .recover 0]).cursor.rest? =
      .ok [⟨.name, "b", ⟨6, 3, 1⟩⟩] := by
    rw [after_parenInLiteral]
    rfl
  have hsteps : ∀ s ∈ [Step.statement, .recover 0], s.Within 1 := by
    intro s hs
    simp only [List.mem_cons, List.not_mem_nil, or_false] at hs
    rcases hs with rfl | rfl
    · trivial
    · exact ⟨0, Nat.zero_le 1, rfl⟩
  obtain ⟨hdepth, hrun, -⟩ := run_of_history _ _ _ hrest hsteps
  refine ⟨hrest, hdepth, ?_⟩
  rw [after_parenInLiteral] at hrun ⊢
  exact hrun

end Reader

end Parse

end MatrixCalc
