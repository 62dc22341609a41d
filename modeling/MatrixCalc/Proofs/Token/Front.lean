/-
**The front of a text has the front of its tokens.**

How far a lexeme goes shows in its own characters and in the one behind them, and a text that ends there ends
the lexeme as well.  So a text may be cut off behind any of its lexemes: the ones in front stay what they are.

Main definitions:

* `MatrixCalc.Reads` — what a scanner gives depends on no more than it takes;
* `MatrixCalc.Finds` — a text starts with some tokens.

Main results:

* `MatrixCalc.Reads.andThen` — one scanner behind another one;
* `MatrixCalc.lexeme_front` — **a lexeme stays what it is if the text is cut off behind it**;
* `MatrixCalc.Finds.lexes` — a text that is cut off behind tokens is cut into these tokens.
-/

import MatrixCalc.Proofs.Token.Seam

set_option autoImplicit false

namespace MatrixCalc

open Text Token

/-! ### Scanners -/

/-- A scanner takes characters from the front of a text and leaves the rest.  If the text is cut off somewhere
in what is left, the scanner gives the same. -/
structure Reads {α : Type} (scan : List Char → α × List Char) : Prop where
  /-- What is left is the end of the text. -/
  suffix : ∀ cs, (scan cs).2 <:+ cs
  /-- What is cut off of what is left does not matter. -/
  front : ∀ cs back left, (scan (cs ++ back)).2 = left ++ back → scan cs = ((scan (cs ++ back)).1, left)

theorem length_ne_of_append_cons {α : Type} {a : α} {left back rest : List α}
    (h : rest = left ++ a :: back) : ¬ rest.length ≤ back.length := by
  rw [h, List.length_append, List.length_cons]
  omega

namespace Reads

variable {α β γ : Type} {f : List Char → α × List Char} {g : List Char → β × List Char}

theorem map (h : α → γ) (hf : Reads f) : Reads fun cs => (h (f cs).1, (f cs).2) where
  suffix := hf.suffix
  front cs back left hleft := by
    rw [hf.front cs back left hleft]

/-- **One scanner behind another one** depends on no more than both take. -/
theorem andThen (hf : Reads f) (hg : Reads g) :
    Reads fun cs => (((f cs).1, (g (f cs).2).1), (g (f cs).2).2) where
  suffix cs := (hg.suffix _).trans (hf.suffix cs)
  front cs back left hleft := by
    -- the first scanner leaves what the second one takes, and what is cut off
    obtain ⟨taken, htaken⟩ := hg.suffix (f (cs ++ back)).2
    rw [hleft, ← List.append_assoc] at htaken
    have hfirst := hf.front cs back _ htaken.symm
    rw [← htaken] at hleft
    have hsecond := hg.front _ back left hleft
    rw [hfirst, ← htaken, hsecond]

/-- The run of the characters of a class. -/
theorem span (p : Char → Bool) : Reads fun cs => (cs.takeWhile p, cs.dropWhile p) where
  suffix cs := List.dropWhile_suffix p
  front cs back left hleft := by
    induction cs with
    | nil =>
        cases back with
        | nil =>
            obtain rfl : left = [] := by simpa using hleft.symm
            rfl
        | cons a back =>
            cases ha : p a with
            | false =>
                obtain rfl : left = [] := by simpa [ha] using hleft
                simp [ha]
            | true =>
                rw [List.nil_append, List.dropWhile_cons_of_pos ha] at hleft
                exact absurd (List.dropWhile_suffix p).length_le (length_ne_of_append_cons hleft)
    | cons c cs ih =>
        cases hc : p c with
        | false =>
            obtain rfl : c :: cs = left := by
              refine (List.append_left_inj back).1 ?_
              simpa [hc] using hleft
            simp [hc]
        | true =>
            rw [List.cons_append, List.dropWhile_cons_of_pos hc] at hleft
            obtain ⟨htake, hdrop⟩ := Prod.mk.inj (ih hleft)
            simp [hc, htake, hdrop]

theorem spanSign : Reads Token.spanSign where
  suffix cs := ⟨_, spanSign_append cs⟩
  front cs back left hleft := by
    cases cs with
    | nil =>
        cases back with
        | nil =>
            obtain rfl : left = [] := by simpa [Token.spanSign] using hleft.symm
            rfl
        | cons a back =>
            simp only [List.nil_append, Token.spanSign] at hleft ⊢
            split at hleft
            · exact absurd (Nat.le_refl _) (length_ne_of_append_cons hleft)
            · next ha =>
                obtain rfl : left = [] := by simpa using hleft
                rw [if_neg ha]
    | cons c cs =>
        simp only [List.cons_append, Token.spanSign] at hleft ⊢
        split at hleft
        · next hc =>
            rw [if_pos hc, if_pos hc, List.append_cancel_right hleft]
        · next hc =>
            have hleft' : c :: cs = left := (List.append_left_inj back).1 hleft
            rw [if_neg hc, if_neg hc, ← hleft']

theorem spanDigitRun : Reads Token.spanDigitRun where
  suffix cs := ⟨_, spanDigitRun_append cs⟩
  front cs back left hleft := by
    cases cs with
    | nil =>
        cases back with
        | nil =>
            obtain rfl : left = [] := by simpa [Token.spanDigitRun] using hleft.symm
            rfl
        | cons a back =>
            cases ha : isDigit a with
            | false =>
                obtain rfl : left = [] := by simpa [Token.spanDigitRun, ha] using hleft
                simp [Token.spanDigitRun, ha]
            | true =>
                have hrun : isDigitOrSeparator a = true := by simp [isDigitOrSeparator, ha]
                have hdrop : List.dropWhile isDigitOrSeparator back = left ++ a :: back := by
                  simpa [Token.spanDigitRun, ha, hrun] using hleft
                exact absurd (List.dropWhile_suffix _).length_le (length_ne_of_append_cons hdrop)
    | cons c cs =>
        cases hc : isDigit c with
        | false =>
            obtain rfl : c :: cs = left := by
              refine (List.append_left_inj back).1 ?_
              simpa [Token.spanDigitRun, hc] using hleft
            simp [Token.spanDigitRun, hc]
        | true =>
            have hspan := (Reads.span isDigitOrSeparator).front (c :: cs) back left
            simp only [Token.spanDigitRun, List.cons_append, List.head?_cons, Option.map_some, hc,
              Option.getD_some, if_true] at hleft hspan ⊢
            exact hspan hleft

theorem exponentText : Reads ExponentText.scan :=
  (((Reads.span (· == '_')).andThen spanSign).andThen spanDigitRun).map
    fun x => (⟨x.1.1, x.1.2, x.2⟩ : ExponentText)

/-- A scanner behind a mark, if the mark is there. -/
theorem behind {a : Char} (hf : Reads f) {scan : List Char → Option α × List Char}
    (hmark : ∀ cs, scan (a :: cs) = (some (f cs).1, (f cs).2))
    (hother : ∀ cs, cs.head? ≠ some a → scan cs = (none, cs)) : Reads scan where
  suffix cs := by
    by_cases hcs : cs.head? = some a
    · obtain ⟨cs, rfl⟩ := List.head?_eq_some_iff.1 hcs
      rw [hmark]
      exact (hf.suffix cs).trans (List.suffix_cons a cs)
    · simp [hother cs hcs]
  front cs back left hleft := by
    cases cs with
    | nil =>
        by_cases hback : back.head? = some a
        · obtain ⟨back, rfl⟩ := List.head?_eq_some_iff.1 hback
          rw [List.nil_append, hmark] at hleft
          exact absurd (hf.suffix back).length_le (length_ne_of_append_cons hleft)
        · rw [List.nil_append, hother back hback] at hleft ⊢
          obtain rfl : left = [] := by simpa using hleft
          exact hother [] (by simp)
    | cons c cs =>
        by_cases hc : c = a
        · subst hc
          rw [List.cons_append, hmark] at hleft ⊢
          obtain ⟨hvalue, hrest⟩ := Prod.mk.inj (hf.front cs back left hleft)
          rw [hmark, hvalue, hrest]
        · rw [hother _ (by simpa using hc)] at hleft ⊢
          rw [hother _ (by simpa using hc), List.append_cancel_right hleft]

theorem scanFraction : Reads NumberText.scanFraction :=
  (Reads.span isDigitOrSeparator).behind (fun _ => rfl) fun cs hcs =>
    NumberText.scanFraction.eq_2 cs fun cs' h => hcs (by rw [h]; rfl)

theorem scanExponent : Reads NumberText.scanExponent :=
  exponentText.behind (fun _ => rfl) fun cs hcs =>
    NumberText.scanExponent.eq_2 cs fun cs' h => hcs (by rw [h]; rfl)

theorem numberText : Reads NumberText.scan :=
  (((Reads.span isDigitOrSeparator).andThen scanFraction).andThen scanExponent).map
    fun x => (⟨x.1.1, x.1.2, x.2⟩ : NumberText)

end Reads

/-! ### Lexemes -/

theorem suffixCause?_front {left : List Char} {back : List Char} (h : suffixCause? (left ++ back) = none) :
    suffixCause? left = none := by
  cases left with
  | nil => rfl
  | cons c left => exact h

theorem numberLexeme_front {cs back left : List Char} {l : Lexeme}
    (h : numberLexeme (cs ++ back) = .ok l) (hleft : l.rest = left ++ back) :
    numberLexeme cs = .ok { l with rest := left } := by
  simp only [numberLexeme] at h ⊢
  split at h
  · cases h
  · next hcomplete =>
      split at h
      · cases h
      · next hsuffix =>
          obtain rfl := Except.ok.inj h
          have hscan := Reads.numberText.front cs back left hleft
          have hleft' : (NumberText.scan (cs ++ back)).2 = left ++ back := hleft
          rw [hleft'] at hsuffix
          rw [hscan, if_neg hcomplete, suffixCause?_front hsuffix]

theorem Lexeme.run_front {p : Char → Bool} {kind : Option Token.Kind} {c : Char} {cs back left : List Char}
    (hleft : (Lexeme.run kind p c (cs ++ back)).rest = left ++ back) :
    Lexeme.run kind p c cs = { Lexeme.run kind p c (cs ++ back) with rest := left } := by
  obtain ⟨htake, hdrop⟩ := Prod.mk.inj ((Reads.span p).front cs back left hleft)
  simp only [Lexeme.run, htake, hdrop]

theorem newlineLexeme_front {c : Char} {cs back left : List Char}
    (hleft : (newlineLexeme c (cs ++ back)).rest = left ++ back) :
    newlineLexeme c cs = { newlineLexeme c (cs ++ back) with rest := left } := by
  by_cases hpair : c = '\r' ∧ (cs ++ back).head? = some '\n'
  · cases cs with
    | nil =>
        obtain ⟨back, rfl⟩ := List.head?_eq_some_iff.1 hpair.2
        simp only [newlineLexeme, if_pos hpair] at hleft
        exact absurd (Nat.le_refl _) (length_ne_of_append_cons hleft)
    | cons d cs =>
        have hpair' : c = '\r' ∧ (d :: cs).head? = some '\n' := hpair
        simp only [newlineLexeme, if_pos hpair, if_pos hpair'] at hleft ⊢
        rw [← List.append_cancel_right hleft, List.tail_cons]
  · have hpair' : ¬ (c = '\r' ∧ cs.head? = some '\n') := fun h =>
      hpair ⟨h.1, by rw [List.head?_append, h.2]; rfl⟩
    simp only [newlineLexeme, if_neg hpair, if_neg hpair'] at hleft ⊢
    rw [List.append_cancel_right hleft]

/-- **A lexeme stays what it is if the text is cut off behind it**, or further on. -/
theorem lexeme_front {c : Char} {cs back left : List Char} {l : Lexeme} (h : lexeme c (cs ++ back) = .ok l)
    (hleft : l.rest = left ++ back) : lexeme c cs = .ok { l with rest := left } := by
  simp only [lexeme] at h ⊢
  split at h
  · next hc =>
      rw [if_pos hc]
      exact numberLexeme_front h hleft
  next hc =>
  rw [if_neg hc]
  split at h
  · next hc =>
      obtain rfl := Except.ok.inj h
      rw [if_pos hc, Lexeme.run_front hleft]
  next hc =>
  rw [if_neg hc]
  split at h
  · next hc =>
      obtain rfl := Except.ok.inj h
      rw [if_pos hc, newlineLexeme_front hleft]
  next hc =>
  rw [if_neg hc]
  split at h
  · next hc =>
      obtain rfl := Except.ok.inj h
      rw [if_pos hc, Lexeme.run_front hleft]
  next hc =>
  rw [if_neg hc]
  split at h
  · next hc =>
      obtain rfl := Except.ok.inj h
      rw [if_pos hc, Lexeme.run_front hleft]
  next hc =>
  rw [if_neg hc]
  split at h
  · next k hk =>
      obtain rfl := Except.ok.inj h
      rw [List.append_cancel_right hleft]
  · cases h

/-! ### The tokens that a text starts with -/

/-- The text `cs` from `p` on starts with the tokens `ts`, and `rest` is behind them. -/
inductive Finds : Position → List Char → Tokens → List Char → Prop where
  | nil (p : Position) (cs : List Char) : Finds p cs ⟨[], p⟩ cs
  | cons {p : Position} {c : Char} {cs rest : List Char} {l : Lexeme} {ts : Tokens}
      (hl : lexeme c cs = .ok l) (h : Finds (l.after p) l.rest ts rest) :
      Finds p (c :: cs) (l.pushTo p ts) rest

variable {p : Position} {cs : List Char} {ts : Tokens}

namespace Finds

variable {rest : List Char}

theorem suffix (h : Finds p cs ts rest) : rest <:+ cs := by
  induction h with
  | nil p cs => exact List.suffix_refl cs
  | cons hl _ ih => exact ih.trans ⟨_, chars_append_rest hl⟩

/-- **A text that is cut off behind tokens is cut into these tokens**, by induction on them: each lexeme stays
what it is. -/
theorem lexes {back : List Char} (h : Finds p (cs ++ back) ts back) : Lexes p cs ts := by
  generalize hwhole : cs ++ back = whole at h
  induction h generalizing cs with
  | nil p whole =>
      obtain rfl : cs = [] := by simpa using hwhole
      exact .nil p
  | @cons p c whole back l ts hl hrest ih =>
      obtain ⟨front, hfront⟩ := hrest.suffix
      cases cs with
      | nil =>
          have hshorter := length_rest_lt hl
          obtain rfl : back = c :: whole := hwhole
          rw [← hfront, List.length_append] at hshorter
          omega
      | cons d cs =>
          obtain ⟨rfl, rfl⟩ := List.cons_eq_cons.1 hwhole
          exact .cons (l := { l with rest := front }) (lexeme_front hl hfront.symm) (ih hfront)

end Finds

end MatrixCalc
