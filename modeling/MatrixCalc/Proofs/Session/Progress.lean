/-
**Every round of a session gets on in its text.**

A session goes through a text with a cursor.  In each round it passes over separators and reads a statement, and
if it cannot read one it goes back to where the statement starts and recovers from there.  It always ends up
behind where it started, unless it is to stop at failures: then it stays where the parser has stopped, and this
may be the first token of the statement.  Each round adds one entry to the report, and the entries of both kinds
are in the order of their lines, since an error shows in front of the next statement.

Main definitions:

* `MatrixCalc.Session.Loop` — where a session is in a text, and what it has to report so far;
* `MatrixCalc.Session.Loop.next` — one round;
* `MatrixCalc.Session.Turn` — what a round has done;
* `MatrixCalc.Session.Runs` — rounds one after the other until the session is done with the text;
* `MatrixCalc.Session.Turn.Advances` — a round gets on.

Main results:

* `MatrixCalc.Session.Loop.exists_reaches` — rounds come to the end, with the report of the session;
* `MatrixCalc.Parse.attempts_pairwise` — attempts are in the order of their lines;
* `MatrixCalc.Session.run_advances` — **every round gets on, and is accounted for**.
-/

import MatrixCalc.Proofs.Session.Located

set_option autoImplicit false

namespace MatrixCalc

/-! ### Cursors at what a text ends with -/

namespace Parse.Cursor

variable {source : Tokens} {ts back : List Token}

/-- The cursor before the tokens `ts` that a text ends with. -/
def before (source : Tokens) (ts : List Token) : Cursor := ⟨source, (source.list.length - ts.length : Nat)⟩

theorem start_eq_before (source : Tokens) : start source = before source source.list := by
  rw [before, Nat.sub_self]
  rfl

theorem rest?_before (h : ts <:+ source.list) : (before source ts).rest? = .ok ts := by
  rw [before, rest?_natCast source (Nat.sub_le _ _), ← List.suffix_iff_eq_drop.1 h]

/-- Reading on from some tokens to others that are not more. -/
theorem moved_before (h : ts <:+ source.list) (hle : back.length ≤ ts.length) :
    (before source ts).moved ts back = before source back := by
  have hlength := h.length_le
  have hindex : ((source.list.length - ts.length : Nat) : Int) + (ts.length - back.length : Nat) =
      (source.list.length - back.length : Nat) := by
    omega
  simp only [moved, before, hindex]

/-- A parser that leaves no more tokens than there are. -/
theorem run_before {α : Type} {p : Position → (ts : List Token) → Outcome α ts.length}
    (h : ts <:+ source.list) (hle : (p source.finish ts).rest.length ≤ ts.length) :
    (before source ts).run p =
      ((p source.finish ts).result.mapError .parse, before source (p source.finish ts).rest) := by
  simp only [run, rest?_before h]
  exact congrArg _ (moved_before h hle)

/-- Recovery from some tokens, wherever the parser has come to. -/
theorem recover_before (h : ts <:+ source.list) (stop : List Token) :
    ((before source stop).recover (before source ts).index).2 = before source (Parse.recover ts).2 := by
  have hmoved := moved_before h (length_recoverFrom_le 0 ts)
  have hrest := rest?_before h
  simp only [before] at hrest hmoved
  simp only [recover, before, hrest]
  exact hmoved

/-- Fewer tokens are further behind. -/
theorem index_before_le (hle : back.length ≤ ts.length) :
    (before source ts).index ≤ (before source back).index := by
  simp only [before]
  omega

theorem index_before_lt (h : ts <:+ source.list) (hlt : back.length < ts.length) :
    (before source ts).index < (before source back).index := by
  have hlength := h.length_le
  simp only [before]
  omega

theorem index_before_mem (source : Tokens) (ts : List Token) :
    0 ≤ (before source ts).index ∧ (before source ts).index ≤ source.list.length := by
  simp only [before]
  omega

end Parse.Cursor

namespace Session

open Parse (Cursor)

/-! ### Rounds -/

/-- Where a session is in a text, and what it has to report so far. -/
structure Loop where
  cursor : Cursor
  env : Env (Value Float)
  outputs : List Output
  diagnostics : List Diagnostic

/-- What a round has done in which a statement was started. -/
structure Turn where
  /-- The session before the round. -/
  before : Loop
  /-- The index at which the statement starts. -/
  start : Int
  /-- The index at which the parser has stopped. -/
  stop : Int
  /-- The session behind the round. -/
  behind : Loop

/-- What comes next in a text. -/
inductive Next where
  /-- There is no other statement. -/
  | ended (l : Loop)
  /-- A round, and others behind it. -/
  | goes (t : Turn)
  /-- A round with a failure, at which the session stops. -/
  | left (t : Turn)
  /-- A round that ends the run without a report. -/
  | aborted (e : Failure)
  /-- The cursor is beyond the text. -/
  | lost

namespace Loop

/-- The session at the start of a text. -/
def start (source : Tokens) (env : Env (Value Float)) : Loop := ⟨.start source, env, [], []⟩

/-- The session with another entry in the report, the parser having come to a cursor. -/
def push (l : Loop) (cursor : Cursor) (env : Env (Value Float)) (e : Event) : Loop :=
  ⟨cursor, env, l.outputs ++ e.output?.toList, l.diagnostics ++ e.diagnostic?.toList⟩

/-- One round. -/
def next (c : Context) (l : Loop) : Next :=
  match l.cursor.skipSeparators with
  | .error _ => .lost
  | .ok cursor =>
      match cursor.current with
      | .error _ => .lost
      | .ok none => .ended { l with cursor := cursor }
      | .ok (some t) =>
          match cursor.run Parse.statement with
          | (.error .beyondEnd, _) => .lost
          | (.error (.parse e), stop) =>
              let failed := Event.unparsed t.position.line e
              if c.crashOnError then .left ⟨l, cursor.index, stop.index, l.push stop l.env failed⟩
              else
                .goes ⟨l, cursor.index, stop.index, l.push (stop.recover cursor.index).2 l.env failed⟩
          | (.ok s, stop) =>
              let v := s.evaluate c l.env
              match v.result with
              | .ok a =>
                  .goes ⟨l, cursor.index, stop.index, l.push stop v.env (.output (Run.outputOf s a))⟩
              | .error (.eval e) =>
                  let t : Turn := ⟨l, cursor.index, stop.index, l.push stop v.env (.failed s.line e)⟩
                  if c.crashOnError then .left t else .goes t
              | .error e => .aborted e

end Loop

/-- Rounds one after the other, from a session in a text until it is done with the text. -/
inductive Runs (c : Context) : Loop → List Turn → Loop → Prop where
  | ended {l l' : Loop} (h : l.next c = .ended l') : Runs c l [] l'
  | left {l : Loop} {t : Turn} (h : l.next c = .left t) (hbefore : t.before = l) : Runs c l [t] t.behind
  | goes {l l' : Loop} {t : Turn} {ts : List Turn} (h : l.next c = .goes t) (hbefore : t.before = l)
      (hruns : Runs c t.behind ts l') : Runs c l (t :: ts) l'

/-- A round gets on in a text and adds one entry to the report. -/
structure Turn.Advances (c : Context) (source : Tokens) (t : Turn) : Prop where
  before_mem : 0 ≤ t.before.cursor.index
  /-- The statement starts where the session is, or further behind. -/
  start_le : t.before.cursor.index ≤ t.start
  /-- The parser goes on from there. -/
  stop_le : t.start ≤ t.stop
  stop_mem : t.stop ≤ source.list.length
  behind_mem : 0 ≤ t.behind.cursor.index ∧ t.behind.cursor.index ≤ source.list.length
  /-- The session ends up behind the start of the statement, or it is to stop at failures, and the statement
  cannot be read. -/
  advances : t.start < t.behind.cursor.index ∨
    c.crashOnError = true ∧ ∃ e, (⟨source, t.start⟩ : Cursor).run Parse.statement =
      (.error (.parse e), t.behind.cursor)
  /-- There is one more output, or one more diagnostic. -/
  entry : (∃ o, t.behind.outputs = t.before.outputs ++ [o] ∧ t.behind.diagnostics = t.before.diagnostics) ∨
    ∃ d, t.behind.outputs = t.before.outputs ∧ t.behind.diagnostics = t.before.diagnostics ++ [d]

namespace Loop

variable {c : Context} {source : Tokens} {l : Loop} {ts : List Token}

/-- An event adds one entry. -/
theorem entry_push (l : Loop) (cursor : Cursor) (env : Env (Value Float)) (e : Event) :
    (∃ o, (l.push cursor env e).outputs = l.outputs ++ [o] ∧
      (l.push cursor env e).diagnostics = l.diagnostics) ∨
    ∃ d, (l.push cursor env e).outputs = l.outputs ∧
      (l.push cursor env e).diagnostics = l.diagnostics ++ [d] := by
  cases e with
  | output o => exact .inl ⟨o, rfl, List.append_nil _⟩
  | unparsed line e => exact .inr ⟨.ofParse line e, List.append_nil _, rfl⟩
  | failed line e => exact .inr ⟨.ofEval line e, List.append_nil _, rfl⟩

/-- The cursor at the next statement, which is at some tokens `back`. -/
theorem skipSeparators_before (hts : ts <:+ source.list) {back : List Token}
    (h : Parse.skipSeparators ts = back) :
    (Cursor.before source ts).skipSeparators = .ok (Cursor.before source back) := by
  have hle := Parse.length_skipSeparators_le ts
  rw [Cursor.skipSeparators, Cursor.rest?_before hts, ← h]
  simp only [Except.map, Cursor.moved_before hts hle]

theorem current_before (hts : ts <:+ source.list) :
    (Cursor.before source ts).current = .ok ts.head? := by
  rw [Cursor.current, Cursor.rest?_before hts]
  rfl

/-- Where no statement is left, the session is done. -/
theorem next_of_nil (hcursor : l.cursor = Cursor.before source ts) (hts : ts <:+ source.list)
    (hs : Parse.skipSeparators ts = []) :
    l.next c = .ended { l with cursor := Cursor.before source [] } := by
  rw [next, hcursor, skipSeparators_before hts hs]
  simp only [current_before (List.nil_suffix)]
  rfl

/-- The round of a session with a statement that starts at some tokens, the parser stopping at others, and the
session going on at others again. -/
def turn (l : Loop) (source : Tokens) (start stop back : List Token) (env : Env (Value Float)) (e : Event) :
    Turn :=
  ⟨l, (Cursor.before source start).index, (Cursor.before source stop).index,
    l.push (Cursor.before source back) env e⟩

/-- A round gets on if it leaves fewer tokens than the statement starts with, or is allowed to stop there. -/
theorem advances_turn (hcursor : l.cursor = Cursor.before source ts) (hts : ts <:+ source.list)
    {start stop back : List Token} (hstart : start <:+ ts) (hstop : stop.length ≤ start.length)
    (hback : back.length < start.length ∨ c.crashOnError = true ∧
      ∃ e, (Cursor.before source start).run Parse.statement = (.error (.parse e), Cursor.before source back))
    (env : Env (Value Float)) (event : Event) : (l.turn source start stop back env event).Advances c source where
  before_mem := by
    rw [turn, hcursor]
    exact (Cursor.index_before_mem source ts).1
  start_le := by
    rw [turn, hcursor]
    exact Cursor.index_before_le hstart.length_le
  stop_le := Cursor.index_before_le hstop
  stop_mem := (Cursor.index_before_mem source stop).2
  behind_mem := Cursor.index_before_mem source back
  advances := hback.imp_left (Cursor.index_before_lt (hstart.trans hts))
  entry := entry_push _ _ _ _

/-- A round of a session that gives what an attempt gives, and leaves the tokens `back`. -/
def Gives (c : Context) (source : Tokens) (l : Loop) (a : Attempt) (back : List Token) : Prop :=
  ∀ r env', a.round c l.env = (.ok r, env') → ∃ t : Turn, t.before = l ∧ t.Advances c source ∧
    (∃ cursor, t.behind = l.push cursor env' r.event) ∧
    if c.crashOnError && r.fails then l.next c = .left t
    else l.next c = .goes t ∧ t.behind.cursor = Cursor.before source back

section

variable {t : Token} {rest : List Token}

/-- **A statement that cannot be read.**  The session goes back to its start and recovers from there. -/
theorem gives_of_error (hcursor : l.cursor = Cursor.before source ts) (hts : ts <:+ source.list)
    (hs : Parse.skipSeparators ts = t :: rest) {e : ParseError} {stop : List Token}
    (he : Parse.statement source.finish (t :: rest) = .error e stop) :
    l.Gives c source (.unparsed t.position.line e) (Parse.recover (t :: rest)).2 := by
  intro r env' hround
  simp only [Attempt.round, Prod.mk.injEq, Except.ok.injEq] at hround
  obtain ⟨rfl, rfl⟩ := hround
  have hskip : t :: rest <:+ ts := hs ▸ List.dropWhile_suffix _
  have hsource : t :: rest <:+ source.list := hskip.trans hts
  have hfails : (Parse.statement source.finish (t :: rest)).Fails e stop := by simp [he]
  obtain ⟨-, -, -, -, ⟨hstop, -⟩, -⟩ := Parse.exists_recover_of_fails hfails
  have hrun : (Cursor.before source (t :: rest)).run Parse.statement =
      (.error (.parse e), Cursor.before source stop) := by
    have hle : (Parse.statement source.finish (t :: rest)).rest.length ≤ (t :: rest).length := by
      rw [he]
      exact hstop
    rw [Cursor.run_before hsource hle, he]
    rfl
  have hnext : l.next c =
      if c.crashOnError then .left (l.turn source (t :: rest) stop stop l.env (.unparsed t.position.line e))
      else .goes (l.turn source (t :: rest) stop (Parse.recover (t :: rest)).2 l.env
        (.unparsed t.position.line e)) := by
    simp only [next, turn, hcursor, skipSeparators_before hts hs, current_before hsource, List.head?_cons, hrun,
      Cursor.recover_before hsource]
  -- with recovery there are fewer tokens, and without it the session is to stop
  cases hcrash : c.crashOnError with
  | true =>
      rw [hcrash, if_pos rfl] at hnext
      exact ⟨_, rfl, advances_turn hcursor hts hskip hstop (.inr ⟨hcrash, e, hrun⟩) _ _, ⟨_, rfl⟩, hnext⟩
  | false =>
      rw [hcrash, if_neg Bool.false_ne_true] at hnext
      have hlt := Parse.length_recover_lt t rest
      exact ⟨_, rfl, advances_turn hcursor hts hskip hstop (.inl hlt) _ _, ⟨_, rfl⟩, hnext, rfl⟩

/-- **A statement that can be read.**  The session goes on behind it, whether or not it has a value. -/
theorem gives_of_ok (hcursor : l.cursor = Cursor.before source ts) (hts : ts <:+ source.list)
    (hs : Parse.skipSeparators ts = t :: rest) {s : Statement} {rest' : List Token} {hlt}
    (he : Parse.statement source.finish (t :: rest) = .ok s rest' hlt) :
    l.Gives c source (.parsed s) rest' := by
  intro r env' hround
  have hskip : t :: rest <:+ ts := hs ▸ List.dropWhile_suffix _
  have hsource : t :: rest <:+ source.list := hskip.trans hts
  have hle : rest'.length ≤ (t :: rest).length := Nat.le_of_lt hlt
  have hrun : (Cursor.before source (t :: rest)).run Parse.statement = (.ok s, Cursor.before source rest') := by
    have hrest : (Parse.statement source.finish (t :: rest)).rest.length ≤ (t :: rest).length := by
      rw [he]
      exact hle
    rw [Cursor.run_before hsource hrest, he]
    rfl
  have hadvances : ∀ event, (l.turn source (t :: rest) rest' rest' env' event).Advances c source :=
    advances_turn hcursor hts hskip hle (.inl hlt) env'
  have hnext : l.next c =
      let turn := l.turn source (t :: rest) rest' rest' (s.evaluate c l.env).env
      match (s.evaluate c l.env).result with
      | .ok a => .goes (turn (.output (Run.outputOf s a)))
      | .error (.eval e) =>
          if c.crashOnError then .left (turn (.failed s.line e)) else .goes (turn (.failed s.line e))
      | .error e => .aborted e := by
    simp only [next, turn, hcursor, skipSeparators_before hts hs, current_before hsource, List.head?_cons, hrun]
  simp only [Attempt.round] at hround
  split at hround
  · next a hresult =>
      obtain ⟨rfl, rfl⟩ : _ ∧ _ := by simpa using hround
      rw [hresult] at hnext
      have hgoes : (c.crashOnError && Round.fails ⟨(s.evaluate c l.env).assigned,
          .output (Run.outputOf s a)⟩) = false := Bool.and_false _
      refine ⟨_, rfl, hadvances _, ⟨_, rfl⟩, ?_⟩
      rw [hgoes]
      exact ⟨hnext, rfl⟩
  · next e hresult =>
      obtain ⟨rfl, rfl⟩ : _ ∧ _ := by simpa using hround
      rw [hresult] at hnext
      refine ⟨_, rfl, hadvances _, ⟨_, rfl⟩, ?_⟩
      cases hcrash : c.crashOnError with
      | true =>
          rw [hcrash] at hnext
          exact hnext
      | false =>
          rw [hcrash] at hnext
          exact ⟨hnext, rfl⟩
  · cases hround

end

/-! ### All rounds -/

/-- A session comes to the end of a text by rounds that get on, and its report then is that of a run. -/
structure Reaches (c : Context) (source : Tokens) (l : Loop) (r : Run) (turns : List Turn) (l' : Loop) :
    Prop where
  runs : Runs c l turns l'
  env : l'.env = r.env
  outputs : l'.outputs = l.outputs ++ r.outputs
  diagnostics : l'.diagnostics = l.diagnostics ++ r.diagnostics
  advances : ∀ t ∈ turns, t.Advances c source
  /-- There are as many rounds as entries. -/
  length : turns.length = r.outputs.length + r.diagnostics.length
  mem : 0 ≤ l'.cursor.index ∧ l'.cursor.index ≤ source.list.length

section

variable {t : Turn} {r : Round} {cursor : Cursor} {env' : Env (Value Float)}

/-- A round at which the session stops. -/
theorem reaches_left (hnext : l.next c = .left t) (hbefore : t.before = l) (hadvances : t.Advances c source)
    (hbehind : t.behind = l.push cursor env' r.event) :
    Reaches c source l ((Run.done env').push r) [t] t.behind where
  runs := .left hnext hbefore
  env := by
    rw [hbehind]
    rfl
  outputs := by
    rw [hbehind, Run.outputs_push]
    exact congrArg (l.outputs ++ ·) (List.append_nil _).symm
  diagnostics := by
    rw [hbehind, Run.diagnostics_push]
    exact congrArg (l.diagnostics ++ ·) (List.append_nil _).symm
  advances u hu := by
    obtain rfl := List.mem_singleton.1 hu
    exact hadvances
  length := by
    rw [Run.outputs_push, Run.diagnostics_push, List.length_append, List.length_append]
    exact r.event.length_toList.symm
  mem := hadvances.behind_mem

/-- A round in front of others. -/
theorem reaches_goes (hnext : l.next c = .goes t) (hbefore : t.before = l) (hadvances : t.Advances c source)
    (hbehind : t.behind = l.push cursor env' r.event) {run : Run} {turns : List Turn} {l' : Loop}
    (h : Reaches c source t.behind run turns l') : Reaches c source l (run.push r) (t :: turns) l' where
  runs := .goes hnext hbefore h.runs
  env := h.env
  outputs := by
    rw [h.outputs, hbehind, Run.outputs_push, ← List.append_assoc]
    rfl
  diagnostics := by
    rw [h.diagnostics, hbehind, Run.diagnostics_push, ← List.append_assoc]
    rfl
  advances u hu := by
    rcases List.mem_cons.1 hu with rfl | hu
    · exact hadvances
    · exact h.advances u hu
  length := by
    have hone := r.event.length_toList
    rw [Run.outputs_push, Run.diagnostics_push, List.length_append, List.length_append, List.length_cons, h.length]
    omega
  mem := h.mem

end

/-- The rounds of some attempts, from those of the attempts behind the first. -/
theorem exists_reaches_cons {a : Attempt} {as : List Attempt} {back : List Token}
    (hgives : l.Gives c source a back)
    (habort : (Run.ofAttempts c (a :: as) l.env).abort = none)
    (ih : ∀ l' : Loop, l'.cursor = Cursor.before source back → (Run.ofAttempts c as l'.env).abort = none →
      ∃ turns last, Reaches c source l' (Run.ofAttempts c as l'.env) turns last) :
    ∃ turns last, Reaches c source l (Run.ofAttempts c (a :: as) l.env) turns last := by
  rw [Run.ofAttempts] at habort ⊢
  rcases hround : a.round c l.env with ⟨e | r, env'⟩
  · rw [hround] at habort
    cases habort
  · obtain ⟨t, hbefore, hadvances, ⟨cursor, hbehind⟩, hnext⟩ := hgives r env' hround
    rw [hround] at habort
    dsimp only at habort ⊢
    cases hstop : c.crashOnError && r.fails with
    | true =>
        rw [hstop] at hnext
        rw [if_pos rfl]
        exact ⟨[t], t.behind, reaches_left hnext hbefore hadvances hbehind⟩
    | false =>
        rw [hstop] at hnext habort
        have henv : t.behind.env = env' := by rw [hbehind]; rfl
        rw [if_neg Bool.false_ne_true, Run.abort_push, ← henv] at habort
        obtain ⟨turns, last, h⟩ := ih t.behind hnext.2 habort
        rw [if_neg Bool.false_ne_true, ← henv]
        exact ⟨t :: turns, last, reaches_goes hnext.1 hbefore hadvances hbehind h⟩

/-- **Rounds come to the end of a text**, by induction on its attempts. -/
theorem exists_reaches (c : Context) (source : Tokens) (ts : List Token) (hts : ts <:+ source.list) (l : Loop)
    (hcursor : l.cursor = Cursor.before source ts)
    (habort : (Run.ofAttempts c (Parse.attempts source.finish ts) l.env).abort = none) :
    ∃ turns last, Reaches c source l (Run.ofAttempts c (Parse.attempts source.finish ts) l.env) turns last := by
  induction ts using Parse.attempts.induct source.finish generalizing l with
  | case1 ts hs =>
      rw [Parse.attempts_of_nil hs]
      refine ⟨[], _, .ended (next_of_nil hcursor hts hs), rfl, (List.append_nil _).symm,
        (List.append_nil _).symm, ?_, rfl, Cursor.index_before_mem source []⟩
      intro t ht
      cases ht
  | case2 ts t rest hs e stop he _ ih =>
      rw [Parse.attempts_of_error hs he] at habort ⊢
      have hskip : t :: rest <:+ ts := hs ▸ List.dropWhile_suffix _
      have hback := (Parse.recoverFrom_suffix 0 (t :: rest)).trans (hskip.trans hts)
      exact exists_reaches_cons (gives_of_error hcursor hts hs he) habort (ih hback)
  | case3 ts t rest hs s rest' hlt he _ ih =>
      rw [Parse.attempts_of_ok hs he] at habort ⊢
      have hskip : t :: rest <:+ ts := hs ▸ List.dropWhile_suffix _
      have hgives : (Parse.statement source.finish (t :: rest)).Gives s rest' := by simp [he]
      have hback := (Parse.suffix_of_statement_gives hgives).1.trans (hskip.trans hts)
      exact exists_reaches_cons (gives_of_ok hcursor hts hs he) habort (ih hback)

end Loop

end Session

/-! ### The order of lines -/

namespace Parse

variable {finish : Position} {ts : List Token}

/-- An error of a statement shows at or in front of what recovery leaves. -/
theorem exists_shown_of_statement_fails {stop : List Token} {e : ParseError}
    (h : (statement finish ts).Fails e stop) :
    ∃ shown, shown <:+ ts ∧ (recover ts).2 <:+ shown ∧ e.line = some ((positionOf finish shown).line : Int) := by
  obtain ⟨k, -, -, hend, -, j, hj, hshows⟩ := exists_recover_of_fails h
  refine ⟨ts.drop j, List.drop_suffix j ts, ?_, hshows.1⟩
  rcases hend with ⟨-, -, hback⟩ | ⟨-, hback⟩
  · rw [hback]
    exact List.drop_suffix_drop_left ts (Nat.le_succ_of_le hj)
  · rw [hback]
    exact List.nil_suffix

/-- **Attempts are in the order of their lines**, if tokens are. -/
theorem attempts_pairwise
    (hline : ∀ back back', back <:+ ts → back' <:+ back →
      (positionOf finish back).line ≤ (positionOf finish back').line) :
    (attempts finish ts).Pairwise fun a b => a.line ≤ b.line := by
  induction ts using attempts.induct finish with
  | case1 ts hs =>
      rw [attempts_of_nil hs]
      exact .nil
  | case2 ts t rest hs e stop he _ ih =>
      have hskip : t :: rest <:+ ts := hs ▸ List.dropWhile_suffix _
      have hfails : (statement finish (t :: rest)).Fails e stop := by simp [he]
      obtain ⟨shown, hshown, hback, hshows⟩ := exists_shown_of_statement_fails hfails
      rw [attempts_of_error hs he]
      refine .cons (fun b hb => ?_) (ih fun back back' hb hb' =>
        hline back back' (hb.trans (hback.trans (hshown.trans hskip))) hb')
      obtain ⟨back, hsuffix, hb⟩ := line_of_mem_attempts hb
      rw [Attempt.line, hshows, hb]
      exact Int.ofNat_le.2 (hline shown back (hshown.trans hskip) (hsuffix.trans hback))
  | case3 ts t rest hs s rest' hlt he _ ih =>
      have hskip : t :: rest <:+ ts := hs ▸ List.dropWhile_suffix _
      have hgives : (statement finish (t :: rest)).Gives s rest' := by simp [he]
      obtain ⟨hback, hstart⟩ := suffix_of_statement_gives hgives
      rw [attempts_of_ok hs he]
      refine .cons (fun b hb => ?_) (ih fun back back' hb hb' =>
        hline back back' (hb.trans (hback.trans hskip)) hb')
      obtain ⟨back, hsuffix, hb⟩ := line_of_mem_attempts hb
      rw [Attempt.line, hstart, hb]
      exact Int.ofNat_le.2 (hline (t :: rest) back hskip (hsuffix.trans hback))

/-- The lines of the attempts of a text are in order, from its first line to that of its end. -/
theorem lines_attempts {cs : List Char} {ts : Tokens} (h : Tiles cs ts) :
    ((attempts ts.finish ts.list).map Attempt.line).Pairwise (· ≤ ·) ∧
      ∀ line ∈ (attempts ts.finish ts.list).map Attempt.line, 1 ≤ line ∧ line ≤ ts.finish.line := by
  refine ⟨List.pairwise_map.2 (attempts_pairwise fun _ _ hback hback' => h.line_le hback hback'), ?_⟩
  intro line hline
  obtain ⟨a, ha, rfl⟩ := List.mem_map.1 hline
  obtain ⟨back, hback, hplace⟩ := line_of_mem_attempts ha
  have hone := h.one_le_line hback
  have hle := h.line_le hback List.nil_suffix
  rw [positionOf_nil] at hle
  omega

end Parse

namespace Run

variable {c : Context}

/-- An output is on the line of its attempt. -/
theorem output_of_round {a : Attempt} {env env' : Env (Value Float)} {r : Round}
    (h : a.round c env = (.ok r, env')) {o : Output} (ho : r.event.output? = some o) : o.line = a.line := by
  cases a with
  | unparsed line e =>
      simp only [Attempt.round, Prod.mk.injEq, Except.ok.injEq] at h
      obtain ⟨rfl, -⟩ := h
      cases ho
  | parsed s =>
      simp only [Attempt.round] at h
      split at h
      · obtain ⟨rfl, -⟩ : _ ∧ _ := by simpa using h
        obtain rfl := Option.some.inj ho
        rfl
      · obtain ⟨rfl, -⟩ : _ ∧ _ := by simpa using h
        cases ho
      · cases h

/-- **Entries of one kind are on lines of attempts, in the same order**, if each is on the line of its attempt. -/
theorem lines_sublist (c : Context) {β : Type} {part? : Event → Option β} {line : β → Int}
    (hpart : ∀ {a : Attempt} {env env' : Env (Value Float)} {r : Round}, a.round c env = (.ok r, env') →
      ∀ {x : β}, part? r.event = some x → line x = a.line) (as : List Attempt) (env : Env (Value Float)) :
    (((ofAttempts c as env).rounds.filterMap fun r => part? r.event).map line).Sublist
      (as.map Attempt.line) := by
  induction as generalizing env with
  | nil => exact .slnil
  | cons a as ih =>
      rw [ofAttempts]
      rcases hround : a.round c env with ⟨e | r, env'⟩
      · exact List.nil_sublist _
      · have hpush : ∀ run : Run, ((run.rounds.filterMap fun r => part? r.event).map line).Sublist
            (as.map Attempt.line) →
            (((run.push r).rounds.filterMap fun r => part? r.event).map line).Sublist
              ((a :: as).map Attempt.line) := by
          intro run hrun
          rw [rounds_push, List.filterMap_cons, List.map_cons]
          cases hx : part? r.event with
          | none => exact hrun.cons _
          | some x =>
              rw [List.map_cons, hpart hround hx]
              exact hrun.cons_cons _
        dsimp only
        split
        · exact hpush _ (List.nil_sublist _)
        · exact hpush _ (ih env')

end Run

/-! ### The whole text -/

namespace Session

/-- **Every round gets on, and is accounted for.**  If the tolerance is at least zero, a session comes to the end
of each text that can be cut into tokens, by rounds that stay among its tokens.  In each round a statement is
started and one entry is added, an output or a diagnostic, and the session ends up behind the start of the
statement, unless it is to stop at failures and the statement cannot be read.  The outputs are in the order of
their lines, and so are the diagnostics, and all of them are on lines of the text. -/
theorem run_advances (s : Session) {source : String} {ts : Tokens} (hlex : lex source = .ok ts)
    (htolerance : 0 ≤ s.context.zeroTolerance) :
    ∃ turns last, Runs s.context (.start ts s.env) turns last ∧
      (s.run source).result = .ok ⟨last.outputs, last.diagnostics⟩ ∧
      (s.run source).session = ⟨s.context, last.env⟩ ∧
      (∀ t ∈ turns, t.Advances s.context ts) ∧
      (0 ≤ last.cursor.index ∧ last.cursor.index ≤ ts.list.length) ∧
      turns.length = last.outputs.length + last.diagnostics.length ∧
      (last.outputs.map Output.line).Pairwise (· ≤ ·) ∧
      (last.diagnostics.map Diagnostic.line).Pairwise (· ≤ ·) ∧
      ∀ line ∈ last.outputs.map Output.line ++ last.diagnostics.map Diagnostic.line,
        1 ≤ line ∧ line ≤ ts.finish.line := by
  obtain ⟨report, hreport⟩ := exists_report htolerance source
  rw [run_of_lex_ok hlex, Run.ofTokens_eq_ofAttempts] at hreport ⊢
  have habort : (Run.ofAttempts s.context (Parse.attempts ts.finish ts.list) s.env).abort = none := by
    rw [reportOf] at hreport
    split at hreport
    · cases hreport
    · next habort => exact habort
  obtain ⟨turns, last, h⟩ := Loop.exists_reaches s.context ts ts.list (List.suffix_refl _)
    (.start ts s.env) (Parse.Cursor.start_eq_before ts) habort
  have houtputs := h.outputs
  have hdiagnostics := h.diagnostics
  rw [Loop.start, List.nil_append] at houtputs hdiagnostics
  -- entries are on lines of attempts
  have hsublist := Run.lines_sublist s.context (fun hround => Run.output_of_round hround)
    (Parse.attempts ts.finish ts.list) s.env
  have hsublist' := Run.lines_sublist s.context (fun hround _ hd => (Run.diagnostic_of_round hround hd).1)
    (Parse.attempts ts.finish ts.list) s.env
  obtain ⟨hpairwise, hlines⟩ := Parse.lines_attempts (tiles_of_lex_ok hlex)
  refine ⟨turns, last, h.runs, ?_, ?_, h.advances, h.mem, ?_, ?_, ?_, ?_⟩
  · rw [reportOf, habort, houtputs, hdiagnostics]
  · rw [h.env]
    rfl
  · rw [houtputs, hdiagnostics]
    exact h.length
  · rw [houtputs]
    exact hpairwise.sublist hsublist
  · rw [hdiagnostics]
    exact hpairwise.sublist hsublist'
  · intro line hline
    rw [houtputs, hdiagnostics] at hline
    rcases List.mem_append.1 hline with hline | hline
    · exact hlines line (hsublist.subset hline)
    · exact hlines line (hsublist'.subset hline)

/-- A text with a statement that fails in a literal and one without a value. -/
theorem run_advances_parenInLiteral :
    lex "[a\n(]\nb" = .ok Parse.Cursor.parenInLiteral ∧ 0 ≤ Context.usual.zeroTolerance ∧
      ∃ turns last, Runs .usual (.start Parse.Cursor.parenInLiteral .empty) turns last ∧
        ((Session.start .usual).run "[a\n(]\nb").result = .ok ⟨last.outputs, last.diagnostics⟩ ∧
        turns.length = last.outputs.length + last.diagnostics.length ∧
        (last.diagnostics.map Diagnostic.line).Pairwise (· ≤ ·) := by
  have hlex := Parse.Cursor.lex_parenInLiteral
  have htolerance : 0 ≤ Context.usual.zeroTolerance := by decide
  obtain ⟨turns, last, hruns, hreport, -, -, -, hlength, -, hdiagnostics, -⟩ :=
    run_advances (Session.start .usual) hlex htolerance
  exact ⟨hlex, htolerance, turns, last, hruns, hreport, hlength, hdiagnostics⟩

/-- The tokens of a text with a parenthesis that has not been opened. -/
def closeParen : Tokens := ⟨[⟨.closeParen, ")", ⟨0, 1, 1⟩⟩], ⟨1, 1, 2⟩⟩

theorem run_statement_closeParen : (Parse.Cursor.mk closeParen 0).run Parse.statement =
    (.error (.parse (.at_ ⟨0, 1, 1⟩ (.invalidExpression "')' without a preceding operand"))),
      ⟨closeParen, 0⟩) := by
  set_option maxRecDepth 100000 in cbv

/-- If a session is to stop at failures, a statement that cannot be read may leave it at its first token: so
does a parenthesis that has not been opened. -/
theorem index_of_closeParen :
    ∃ c ts t, Context.make 0 true true = .ok c ∧ 0 ≤ c.zeroTolerance ∧ lex ")" = .ok ts ∧
      (Loop.start ts .empty).next c = .left t ∧ t.before.cursor.index = 0 ∧ t.start = 0 ∧
      t.behind.cursor.index = 0 ∧ t.behind.diagnostics.length = 1 := by
  have hnonneg : ¬ (0 : Float) < 0 := by decide
  have hzero : (0 : Float) ≤ 0 := by decide
  have hmake : Context.make 0 true true = .ok ⟨0, true, true, hnonneg⟩ := by
    rw [Context.make, dif_neg hnonneg]
  have hlex : lex ")" = .ok closeParen := by
    set_option maxRecDepth 100000 in cbv
  have hskip : (Parse.Cursor.start closeParen).skipSeparators = .ok ⟨closeParen, 0⟩ := rfl
  have hcurrent : (Parse.Cursor.mk closeParen 0).current = .ok (some ⟨.closeParen, ")", ⟨0, 1, 1⟩⟩) := rfl
  let failed := Event.unparsed 1 (.at_ ⟨0, 1, 1⟩ (.invalidExpression "')' without a preceding operand"))
  let behind := (Loop.start closeParen .empty).push ⟨closeParen, 0⟩ .empty failed
  refine ⟨_, _, ⟨.start closeParen .empty, 0, 0, behind⟩, hmake, hzero, hlex, ?_, rfl, rfl, rfl, rfl⟩
  simp only [Loop.next, Loop.start, hskip, hcurrent, run_statement_closeParen]
  rfl

end Session

end MatrixCalc
