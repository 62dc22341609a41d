/-
**Texts are cut into tokens line by line.**

No token but the line end itself goes on beyond a line feed, and nothing but a carriage return in front of it
makes one with it.  So if a text that does not end in a carriage return is joined to another one with a line
feed, its tokens are those of the first text, a line end, and those of the second.  These stand further down
then, but on their lines they are where they were, and their kinds and texts are the same.

Main definitions:

* `MatrixCalc.Lexes` — a text is cut into tokens, lexeme by lexeme;
* `MatrixCalc.Position.down`, `MatrixCalc.Token.down`, `MatrixCalc.Tokens.down` — places and tokens further
  down, of which only the lines count;
* `MatrixCalc.Tokens.lineEnds` — the number of line ends among tokens.

Main results:

* `MatrixCalc.lexeme_seam` — a lexeme ends before a character that goes on no lexeme, as a line feed;
* `MatrixCalc.lexFrom_eq_ok_iff` — the tokens of a text are found lexeme by lexeme;
* `MatrixCalc.Lexes.seam`, `MatrixCalc.Lexes.down`, `MatrixCalc.Lexes.line_finish` — tokens on both sides of a
  line feed, tokens further down, and the line on which a text ends;
* `MatrixCalc.lex_seam` — **the tokens of two texts that are joined with a line feed**.
-/

import MatrixCalc.Token.Lexer

set_option autoImplicit false

namespace MatrixCalc

open Text Token

/-! ### Runs of characters -/

section Runs

variable {p : Char → Bool} {a : Char}

/-- A run of characters of a class ends before a character that is not of the class. -/
theorem takeWhile_seam (ha : p a = false) (cs back : List Char) :
    (cs ++ a :: back).takeWhile p = cs.takeWhile p := by
  induction cs with
  | nil => simp [ha]
  | cons c cs ih => simp only [List.cons_append, List.takeWhile_cons, ih]

theorem dropWhile_seam (ha : p a = false) (cs back : List Char) :
    (cs ++ a :: back).dropWhile p = cs.dropWhile p ++ a :: back := by
  induction cs with
  | nil => simp [ha]
  | cons c cs ih =>
      simp only [List.cons_append, List.dropWhile_cons, ih]
      split <;> rfl

theorem Lexeme.run_seam (ha : p a = false) (kind : Option Token.Kind) (c : Char) (cs back : List Char) :
    Lexeme.run kind p c (cs ++ a :: back) =
      { Lexeme.run kind p c cs with rest := (Lexeme.run kind p c cs).rest ++ a :: back } := by
  simp only [Lexeme.run, takeWhile_seam ha, dropWhile_seam ha]

end Runs

/-! ### Numbers -/

/-- A character ends a number that it stands behind: it neither goes on the number nor is refused there. -/
structure EndsNumber (a : Char) : Prop where
  notDigit : isDigitOrSeparator a = false
  notPoint : a ≠ '.'
  notExponent : a ≠ 'e'
  notSign : ¬ (a = '+' ∨ a = '-')
  notLetter : isLetter a = false

namespace EndsNumber

variable {a : Char}

theorem isDigit_eq (h : EndsNumber a) : isDigit a = false := by
  have hdigit := h.notDigit
  rw [isDigitOrSeparator, Bool.or_eq_false_iff] at hdigit
  exact hdigit.1

theorem notSeparator (h : EndsNumber a) : (a == '_') = false := by
  have hdigit := h.notDigit
  rw [isDigitOrSeparator, Bool.or_eq_false_iff] at hdigit
  exact hdigit.2

theorem spanSign (h : EndsNumber a) (cs back : List Char) :
    spanSign (cs ++ a :: back) = ((spanSign cs).1, (spanSign cs).2 ++ a :: back) := by
  cases cs with
  | nil => exact if_neg h.notSign
  | cons c cs =>
      simp only [List.cons_append, Token.spanSign]
      split <;> rfl

theorem spanDigitRun (h : EndsNumber a) (cs back : List Char) :
    spanDigitRun (cs ++ a :: back) = ((spanDigitRun cs).1, (spanDigitRun cs).2 ++ a :: back) := by
  have hhead : ((cs ++ a :: back).head?.map isDigit).getD false = (cs.head?.map isDigit).getD false := by
    cases cs with
    | nil => exact h.isDigit_eq
    | cons c cs => rfl
  simp only [Token.spanDigitRun, hhead, takeWhile_seam h.notDigit, dropWhile_seam h.notDigit]
  split <;> rfl

theorem scanExponentText (h : EndsNumber a) (cs back : List Char) :
    ExponentText.scan (cs ++ a :: back) =
      ((ExponentText.scan cs).1, (ExponentText.scan cs).2 ++ a :: back) := by
  have htake := takeWhile_seam (p := (· == '_')) h.notSeparator cs back
  have hdrop := dropWhile_seam (p := (· == '_')) h.notSeparator cs back
  simp only [ExponentText.scan, htake, hdrop, h.spanSign, h.spanDigitRun]

theorem scanFraction (h : EndsNumber a) (cs back : List Char) :
    NumberText.scanFraction (cs ++ a :: back) =
      ((NumberText.scanFraction cs).1, (NumberText.scanFraction cs).2 ++ a :: back) := by
  fun_cases NumberText.scanFraction cs with
  | case1 cs =>
      simp only [List.cons_append, NumberText.scanFraction, takeWhile_seam h.notDigit,
        dropWhile_seam h.notDigit]
  | case2 cs hpoint =>
      rw [NumberText.scanFraction]
      intro cs' hcs
      cases cs with
      | nil => exact h.notPoint (List.cons.inj hcs).1
      | cons c cs => exact hpoint cs (by rw [(List.cons.inj hcs).1])

theorem scanExponent (h : EndsNumber a) (cs back : List Char) :
    NumberText.scanExponent (cs ++ a :: back) =
      ((NumberText.scanExponent cs).1, (NumberText.scanExponent cs).2 ++ a :: back) := by
  fun_cases NumberText.scanExponent cs with
  | case1 cs => simp only [List.cons_append, NumberText.scanExponent, h.scanExponentText]
  | case2 cs hexponent =>
      rw [NumberText.scanExponent]
      intro cs' hcs
      cases cs with
      | nil => exact h.notExponent (List.cons.inj hcs).1
      | cons c cs => exact hexponent cs (by rw [(List.cons.inj hcs).1])

theorem scan (h : EndsNumber a) (cs back : List Char) :
    NumberText.scan (cs ++ a :: back) = ((NumberText.scan cs).1, (NumberText.scan cs).2 ++ a :: back) := by
  simp only [NumberText.scan, takeWhile_seam h.notDigit, dropWhile_seam h.notDigit, h.scanFraction,
    h.scanExponent]

theorem suffixCause? (h : EndsNumber a) (cs back : List Char) :
    suffixCause? (cs ++ a :: back) = suffixCause? cs := by
  cases cs with
  | nil => simp [MatrixCalc.suffixCause?, h.notPoint, h.notLetter]
  | cons c cs => rfl

theorem numberLexeme (h : EndsNumber a) {cs : List Char} {l : Lexeme} (hl : numberLexeme cs = .ok l)
    (back : List Char) : numberLexeme (cs ++ a :: back) = .ok { l with rest := l.rest ++ a :: back } := by
  simp only [MatrixCalc.numberLexeme, h.scan, h.suffixCause?] at hl ⊢
  split at hl
  · cases hl
  · next hcomplete =>
      rw [if_neg hcomplete]
      split at hl
      · cases hl
      · next hsuffix =>
          obtain rfl := Except.ok.inj hl
          rfl

end EndsNumber

theorem endsNumber_lineFeed : EndsNumber '\n' := by
  constructor <;> decide

/-! ### Lexemes before a character that ends them -/

/-- A line end is the same before any character, unless it is a carriage return before a line feed. -/
theorem newlineLexeme_seam {a c : Char} {cs : List Char} (hreturn : a = '\n' → (c :: cs).getLast? ≠ some '\r')
    (back : List Char) : newlineLexeme c (cs ++ a :: back) =
      { newlineLexeme c cs with rest := (newlineLexeme c cs).rest ++ a :: back } := by
  cases cs with
  | nil =>
      have hpair : ¬ (c = '\r' ∧ a = '\n') := fun h => by simpa [h.1] using hreturn h.2
      simp [newlineLexeme, hpair]
  | cons d cs =>
      by_cases hpair : c = '\r' ∧ d = '\n' <;> simp [newlineLexeme, hpair]

/-- **A lexeme ends before a character that goes on no number and no name**, unless the character goes on a gap or
makes one line end with a carriage return. -/
theorem lexeme_seam {a c : Char} {cs : List Char} {l : Lexeme} (h : lexeme c cs = .ok l) (hnumber : EndsNumber a)
    (hword : isWordChar a = false) (hgap : l.kind = none → isGap a = false ∧ isComment a = false)
    (hreturn : a = '\n' → (c :: cs).getLast? ≠ some '\r') (back : List Char) :
    lexeme c (cs ++ a :: back) = .ok { l with rest := l.rest ++ a :: back } := by
  simp only [lexeme] at h ⊢
  split at h
  · next hc =>
      rw [if_pos hc]
      exact hnumber.numberLexeme h back
  next hc =>
  rw [if_neg hc]
  split at h
  · next hc =>
      rw [if_pos hc, ← Except.ok.inj h, Lexeme.run_seam hword]
  next hc =>
  rw [if_neg hc]
  split at h
  · next hc =>
      rw [if_pos hc, ← Except.ok.inj h, newlineLexeme_seam hreturn]
  next hc =>
  rw [if_neg hc]
  split at h
  · next hc =>
      obtain rfl := Except.ok.inj h
      rw [if_pos hc, Lexeme.run_seam (hgap rfl).1]
  next hc =>
  rw [if_neg hc]
  split at h
  · next hc =>
      obtain rfl := Except.ok.inj h
      rw [if_pos hc, Lexeme.run_seam (hgap rfl).2]
  next hc =>
  rw [if_neg hc]
  split at h
  · next k hk =>
      rw [← Except.ok.inj h]
  · cases h

/-- A lexeme ends before a line feed, unless it is a carriage return. -/
theorem lexeme_lineFeed {c : Char} {cs : List Char} {l : Lexeme} (h : lexeme c cs = .ok l)
    (hreturn : (c :: cs).getLast? ≠ some '\r') (back : List Char) :
    lexeme c (cs ++ '\n' :: back) = .ok { l with rest := l.rest ++ '\n' :: back } :=
  lexeme_seam h endsNumber_lineFeed (by decide) (fun _ => by decide) (fun _ => hreturn) back

/-! ### Lexeme by lexeme -/

/-- The text `cs` from `p` on is cut into the tokens `ts`, lexeme by lexeme. -/
inductive Lexes : Position → List Char → Tokens → Prop where
  | nil (p : Position) : Lexes p [] ⟨[], p⟩
  | cons {p : Position} {c : Char} {cs : List Char} {l : Lexeme} {ts : Tokens}
      (hl : lexeme c cs = .ok l) (h : Lexes (l.after p) l.rest ts) : Lexes p (c :: cs) (l.pushTo p ts)

theorem lexFrom_cons {p : Position} {c : Char} {cs : List Char} {l : Lexeme} (h : lexeme c cs = .ok l) :
    lexFrom p (c :: cs) = (lexFrom (l.after p) l.rest).map (l.pushTo p) := by
  rw [lexFrom]
  split
  · next he =>
      rw [h] at he
      cases he
  · next l' hl =>
      rw [h] at hl
      obtain rfl := Except.ok.inj hl
      rfl

theorem lexFrom_cons_of_error {p : Position} {c : Char} {cs : List Char} {cause : LexError.Cause}
    (h : lexeme c cs = .error cause) : lexFrom p (c :: cs) = .error ⟨cause, p⟩ := by
  rw [lexFrom]
  split
  · next he => rw [Except.error.inj (h.symm.trans he)]
  · next hl =>
      rw [h] at hl
      cases hl

theorem Lexes.lexFrom_eq {p : Position} {cs : List Char} {ts : Tokens} (h : Lexes p cs ts) :
    lexFrom p cs = .ok ts := by
  induction h with
  | nil p => exact lexFrom_nil p
  | cons hl _ ih =>
      rw [lexFrom_cons hl, ih]
      rfl

/-- **The tokens of a text are found lexeme by lexeme.** -/
theorem lexFrom_eq_ok_iff {p : Position} {cs : List Char} {ts : Tokens} :
    lexFrom p cs = .ok ts ↔ Lexes p cs ts := by
  refine ⟨fun h => ?_, Lexes.lexFrom_eq⟩
  induction p, cs using lexFrom.induct generalizing ts with
  | case1 p =>
      rw [lexFrom_nil] at h
      obtain rfl := Except.ok.inj h
      exact .nil p
  | case2 p c cs e he =>
      rw [lexFrom_cons_of_error he] at h
      cases h
  | case3 p c cs l hl ih =>
      rw [lexFrom_cons hl] at h
      cases hrest : lexFrom (l.after p) l.rest with
      | error e =>
          rw [hrest] at h
          cases h
      | ok ts' =>
          rw [hrest] at h
          obtain rfl := Except.ok.inj h
          exact .cons hl (ih hrest)

/-! ### Tokens on both sides of a line feed -/

/-- The tokens of a text, a line feed, and those of the text behind it. -/
def Tokens.seam (ts ts' : Tokens) : Tokens := ⟨ts.list ++ ⟨.newline, "\n", ts.finish⟩ :: ts'.list, ts'.finish⟩

theorem Lexeme.finish_pushTo (l : Lexeme) (p : Position) (ts : Tokens) :
    (l.pushTo p ts).finish = ts.finish := by
  unfold pushTo
  cases l.kind <;> rfl

theorem Lexeme.seam_pushTo (l : Lexeme) (p : Position) (ts ts' : Tokens) :
    (l.pushTo p ts).seam ts' = l.pushTo p (ts.seam ts') := by
  unfold pushTo
  cases l.kind <;> rfl

/-- A line feed is a line end. -/
theorem Lexes.lineFeed {p : Position} {cs : List Char} {ts : Tokens} (h : Lexes (p.nextLine 1) cs ts) :
    Lexes p ('\n' :: cs) (ts.push ⟨.newline, "\n", p⟩) :=
  .cons (l := ⟨some .newline, ['\n'], cs⟩) rfl h

/-- **The tokens on both sides of a line feed** that does not stand behind a carriage return. -/
theorem Lexes.seam {p : Position} {cs back : List Char} {ts ts' : Tokens} (h : Lexes p cs ts)
    (hreturn : cs.getLast? ≠ some '\r') (hback : Lexes (ts.finish.nextLine 1) back ts') :
    Lexes p (cs ++ '\n' :: back) (ts.seam ts') := by
  induction h with
  | nil p => exact hback.lineFeed
  | @cons p c cs l ts hl _ ih =>
      have hreturn' : l.rest.getLast? ≠ some '\r' := by
        intro hlast
        rw [← chars_append_rest hl, List.getLast?_append, hlast] at hreturn
        exact hreturn rfl
      rw [Lexeme.finish_pushTo] at hback
      rw [Lexeme.seam_pushTo]
      exact .cons (l := { l with rest := l.rest ++ '\n' :: back }) (lexeme_lineFeed hl hreturn back)
        (ih hreturn' hback)

/-! ### Further down -/

/-- The place `b` lines further down.  Only its line counts. -/
def Position.down (b : Nat) (p : Position) : Position := ⟨0, p.line + b, 0⟩

/-- The token `b` lines further down. -/
def Token.down (b : Nat) (t : Token) : Token := { t with position := t.position.down b }

/-- The tokens of a text `b` lines further down. -/
def Tokens.down (b : Nat) (ts : Tokens) : Tokens := ⟨ts.list.map (Token.down b), ts.finish.down b⟩

theorem Position.down_eq_down {p p' : Position} {b b' : Nat} :
    p.down b = p'.down b' ↔ p.line + b = p'.line + b' := by
  simp [down]

theorem Lexeme.down_pushTo (l : Lexeme) (p : Position) (ts : Tokens) (b : Nat) :
    (l.pushTo p ts).down b = l.pushTo (p.down b) (ts.down b) := by
  unfold pushTo
  cases l.kind <;> rfl

theorem Lexeme.line_after (l : Lexeme) (p : Position) :
    (l.after p).line = p.line + if l.kind = some .newline then 1 else 0 := by
  unfold after
  split <;> rfl

/-- **A text further down has the same tokens further down.** -/
theorem Lexes.down {p p' : Position} {cs : List Char} {ts : Tokens} {b b' : Nat} (h : Lexes p cs ts)
    (hline : p.line + b = p'.line + b') : ∃ ts', Lexes p' cs ts' ∧ ts'.down b' = ts.down b := by
  induction h generalizing p' with
  | nil p =>
      refine ⟨_, .nil p', ?_⟩
      simp only [Tokens.down, List.map_nil, Position.down_eq_down.2 hline]
  | @cons p c cs l ts hl _ ih =>
      have hline' : (l.after p).line + b = (l.after p').line + b' := by
        rw [l.line_after, l.line_after]
        omega
      obtain ⟨ts', hts', hdown⟩ := ih hline'
      refine ⟨l.pushTo p' ts', .cons hl hts', ?_⟩
      rw [Lexeme.down_pushTo, Lexeme.down_pushTo, hdown, Position.down_eq_down.2 hline]

/-- How many line ends are among the tokens of a text. -/
def Tokens.lineEnds (ts : Tokens) : Nat := ts.list.countP fun t => t.kind == .newline

theorem Lexeme.lineEnds_pushTo (l : Lexeme) (p : Position) (ts : Tokens) :
    (l.pushTo p ts).lineEnds = ts.lineEnds + if l.kind = some .newline then 1 else 0 := by
  unfold pushTo
  cases hk : l.kind with
  | none => simp
  | some k => simp [Tokens.lineEnds, List.countP_cons]

/-- **A text ends as many lines further down as there are line ends.** -/
theorem Lexes.line_finish {p : Position} {cs : List Char} {ts : Tokens} (h : Lexes p cs ts) :
    ts.finish.line = p.line + ts.lineEnds := by
  induction h with
  | nil p => rfl
  | @cons p c cs l ts _ _ ih =>
      rw [l.finish_pushTo, ih, l.line_after, l.lineEnds_pushTo]
      omega

/-- **The tokens of two texts that are joined with a line feed**: those of the second are as far down as the
line ends of the first and the line feed bring them. -/
theorem lex_seam {first second : String} {ts ts' : Tokens} (hfirst : lex first = .ok ts)
    (hsecond : lex second = .ok ts') (hreturn : first.toList.getLast? ≠ some '\r') :
    ∃ ts'', lex (first ++ "\n" ++ second) = .ok (ts.seam ts'') ∧
      ts''.down 0 = ts'.down (ts.lineEnds + 1) := by
  have hlexes := lexFrom_eq_ok_iff.1 hfirst
  have hline : Position.start.line + (ts.lineEnds + 1) = (ts.finish.nextLine 1).line + 0 := by
    rw [Position.nextLine, hlexes.line_finish]
    rfl
  obtain ⟨ts'', hback, hdown⟩ := (lexFrom_eq_ok_iff.1 hsecond).down hline
  refine ⟨ts'', ?_, hdown⟩
  have htext : (first ++ "\n" ++ second).toList = first.toList ++ '\n' :: second.toList := by
    simp [String.toList_append]
  rw [lex, htext]
  exact (hlexes.seam hreturn hback).lexFrom_eq

end MatrixCalc
