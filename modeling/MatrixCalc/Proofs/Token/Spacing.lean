/-
**Tokens that are written with spaces between them are read again.**

A space goes on no token, and it is refused behind none.  So the texts of tokens may be joined with single
spaces: each one is the same token as before, at another place of the same line.  What stood between the tokens
is lost, and nothing else is.

Main definitions:

* `MatrixCalc.Tokens.texts`, `MatrixCalc.Tokens.spaced` — the texts of tokens, and these with spaces between
  them.

Main results:

* `MatrixCalc.lexeme_space` — a token stays what it is if a space is put behind it;
* `MatrixCalc.Lexes.spaced`, `MatrixCalc.lex_spaced` — **tokens with spaces between them are read again**, at
  other places of the same lines.
-/

import MatrixCalc.Proofs.Token.Front

set_option autoImplicit false

namespace MatrixCalc

open Text Token

/-! ### A space behind a token -/

theorem endsNumber_space : EndsNumber ' ' := by
  constructor <;> decide

/-- A blank starts no token. -/
theorem lexeme_of_isGap {c : Char} (hc : isGap c = true) (cs : List Char) :
    lexeme c cs = .ok (.run none isGap c cs) := by
  have hcases : c = ' ' ∨ c = '\t' ∨ c = '\x0c' ∨ c = '\x0b' := by
    simpa [isGap, or_assoc] using hc
  rcases hcases with rfl | rfl | rfl | rfl <;> rfl

theorem isGap_of_lexeme {c : Char} {cs : List Char} {l : Lexeme} {k : Kind} (h : lexeme c cs = .ok l)
    (hk : l.kind = some k) : isGap c = false := by
  cases hgap : isGap c with
  | false => rfl
  | true =>
      rw [lexeme_of_isGap hgap] at h
      obtain rfl := Except.ok.inj h
      cases hk

/-- A space in front of what is no blank is a gap by itself. -/
theorem lexeme_of_space {cs : List Char} (hcs : ∀ c ∈ cs.head?, isGap c = false) :
    lexeme ' ' cs = .ok ⟨none, [' '], cs⟩ := by
  have htake : cs.takeWhile isGap = [] ∧ cs.dropWhile isGap = cs := by
    cases cs with
    | nil => exact ⟨rfl, rfl⟩
    | cons c cs => simp [hcs c rfl]
  rw [lexeme_of_isGap (by rfl), Lexeme.run, htake.1, htake.2]

/-- A token is the same by itself. -/
theorem lexeme_alone {c : Char} {cs : List Char} {l : Lexeme} (h : lexeme c cs = .ok l) :
    ∃ chars, l.chars = c :: chars ∧ lexeme c chars = .ok { l with rest := [] } := by
  have happend := chars_append_rest h
  cases hchars : l.chars with
  | nil => exact absurd hchars (lexeme_chars_ne_nil h)
  | cons d chars =>
      rw [hchars, List.cons_append] at happend
      obtain ⟨rfl, rfl⟩ := List.cons_eq_cons.1 happend
      exact ⟨chars, rfl, by simpa [hchars] using lexeme_front h (List.nil_append _).symm⟩

/-- **A token stays what it is if a space is put behind it.** -/
theorem lexeme_space {c : Char} {chars : List Char} {l : Lexeme} {k : Kind} (h : lexeme c chars = .ok l)
    (hk : l.kind = some k) (back : List Char) :
    lexeme c (chars ++ ' ' :: back) = .ok { l with rest := l.rest ++ ' ' :: back } :=
  lexeme_seam h endsNumber_space (by decide) (fun hnone => by rw [hk] at hnone; cases hnone)
    (fun hfeed => absurd hfeed (by decide)) back

/-! ### Spaces between tokens -/

/-- The texts of tokens.  The end of the text may be counted among them: its text is empty. -/
def Tokens.texts (ts : Tokens) (withEnd : Bool) : List String :=
  ts.list.map Token.text ++ if withEnd then [""] else []

/-- The texts of tokens, joined with single spaces. -/
def Tokens.spaced (ts : Tokens) (withEnd : Bool) : String := String.intercalate " " (ts.texts withEnd)

namespace Tokens

variable (withEnd : Bool)

theorem spaced_nil (p : Position) : spaced ⟨[], p⟩ withEnd = "" := by
  cases withEnd <;> rfl

/-- A token is put in front by itself, or with a space behind it. -/
theorem toList_spaced_push (k : Kind) (chars : List Char) (p : Position) (ts : Tokens) :
    ((ts.push ⟨k, String.ofList chars, p⟩).spaced withEnd).toList = chars ∧ (ts.spaced withEnd).toList = [] ∨
      ((ts.push ⟨k, String.ofList chars, p⟩).spaced withEnd).toList =
        chars ++ ' ' :: (ts.spaced withEnd).toList := by
  have htexts : (ts.push ⟨k, String.ofList chars, p⟩).texts withEnd =
      String.ofList chars :: ts.texts withEnd := rfl
  rw [spaced, spaced, htexts]
  cases ts.texts withEnd with
  | nil => exact .inl ⟨by rw [String.intercalate_singleton, String.toList_ofList], rfl⟩
  | cons text texts => exact .inr (by simp [String.intercalate_cons_cons, String.toList_append])

end Tokens

namespace Lexes

variable {p : Position} {cs : List Char} {ts : Tokens}

/-- Tokens with spaces between them start with no blank. -/
theorem head_spaced (h : Lexes p cs ts) (withEnd : Bool) :
    ∀ c ∈ (ts.spaced withEnd).toList.head?, isGap c = false := by
  induction h with
  | nil p => simp [Tokens.spaced_nil]
  | @cons p c cs l ts hl _ ih =>
      unfold Lexeme.pushTo
      split
      · next k hk =>
          obtain ⟨chars, hchars, -⟩ := lexeme_alone hl
          intro d hd
          have hhead : some c = some d := by
            rw [hchars] at hd
            rcases ts.toList_spaced_push withEnd k (c :: chars) p with ⟨htext, -⟩ | htext <;>
              · rw [htext] at hd
                exact hd
          rw [← Option.some.inj hhead]
          exact isGap_of_lexeme hl hk
      · exact ih

/-- **Tokens with spaces between them are read again**, by induction on them. -/
theorem spaced (h : Lexes p cs ts) (p' : Position) (hline : p.line = p'.line) (withEnd : Bool) :
    ∃ ts', Lexes p' (ts.spaced withEnd).toList ts' ∧ ts'.down 0 = ts.down 0 := by
  induction h generalizing p' with
  | nil p =>
      rw [Tokens.spaced_nil]
      refine ⟨_, .nil p', ?_⟩
      simp only [Tokens.down, List.map_nil, Position.down_eq_down.2 (congrArg (· + 0) hline)]
  | @cons p c cs l ts hl hrest ih =>
      cases hk : l.kind with
      | none =>
          have hpush : l.pushTo p ts = ts := by rw [Lexeme.pushTo, hk]
          rw [hpush]
          exact ih p' (by rw [l.line_after, hk, hline]; rfl)
      | some k =>
          obtain ⟨chars, hchars, halone⟩ := lexeme_alone hl
          have hpush : l.pushTo p ts = ts.push ⟨k, String.ofList (c :: chars), p⟩ := by
            rw [Lexeme.pushTo, hk, hchars]
          have hafter : (l.after p).line = (l.after p').line := by rw [l.line_after, l.line_after, hline]
          have hdown {ts' : Tokens} (h' : ts'.down 0 = ts.down 0) :
              (l.pushTo p' ts').down 0 = (l.pushTo p ts).down 0 := by
            rw [l.down_pushTo, l.down_pushTo, h', Position.down_eq_down.2 (congrArg (· + 0) hline)]
          rcases ts.toList_spaced_push withEnd k (c :: chars) p with ⟨htext, hempty⟩ | htext
          · -- nothing is put behind the token
            obtain ⟨ts', hts', hdown'⟩ := ih _ hafter
            rw [hempty] at hts'
            refine ⟨l.pushTo p' ts', ?_, hdown hdown'⟩
            rw [hpush, htext]
            exact .cons (l := { l with rest := [] }) halone hts'
          · -- the space behind the token is a gap, since no blank is behind it
            obtain ⟨ts', hts', hdown'⟩ := ih ((l.after p').advance 1) hafter
            refine ⟨l.pushTo p' ts', ?_, hdown hdown'⟩
            rw [hpush, htext]
            exact .cons (l := { l with rest := ' ' :: (ts.spaced withEnd).toList })
              (lexeme_space halone hk _) (.cons (lexeme_of_space (hrest.head_spaced withEnd)) hts')

end Lexes

/-- **Tokens with spaces between them are read again**, at other places of the same lines. -/
theorem lex_spaced {source : String} {ts : Tokens} (h : lex source = .ok ts) (withEnd : Bool) :
    ∃ ts', lex (ts.spaced withEnd) = .ok ts' ∧ ts'.down 0 = ts.down 0 := by
  obtain ⟨ts', hts', hdown⟩ := (lexFrom_eq_ok_iff.1 h).spaced .start rfl withEnd
  exact ⟨ts', hts'.lexFrom_eq, hdown⟩

end MatrixCalc
