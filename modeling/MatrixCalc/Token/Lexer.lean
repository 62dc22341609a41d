/-
**Cutting a source text into tokens.**

Blanks (space, tabulator, form feed, vertical tab) and comments, from a percent sign to the end of
the line, stand between tokens and are dropped.  A number must not be followed directly by a second
point or by a letter; every other character that starts no token is refused.

Main definitions:

* `MatrixCalc.Lexeme` — what stands at the front of a text: a token or a gap, and what follows;
* `MatrixCalc.lexeme` — the lexeme at the front of a text;
* `MatrixCalc.lexFrom`, `MatrixCalc.lex` — the tokens of a text.

Main results:

* `MatrixCalc.chars_append_rest` — a lexeme and what follows it are the text;
* `MatrixCalc.length_rest_lt` — a lexeme is not empty.
-/

import MatrixCalc.Token.LexError
import MatrixCalc.Token.NumberText
import MatrixCalc.Text.Word

set_option autoImplicit false

namespace MatrixCalc

open Text Token

/-- What stands at the front of a text. -/
structure Lexeme where
  /-- The kind of the token, or `none` for a gap between tokens. -/
  kind : Option Token.Kind
  /-- Its characters. -/
  chars : List Char
  /-- The text behind it. -/
  rest : List Char

/-- Whether a character is a blank between tokens. -/
def isGap (c : Char) : Bool := c == ' ' || c == '\t' || c == '\x0c' || c == '\x0b'

/-- Whether a character goes on a comment. -/
def isComment (c : Char) : Bool := c != '\n' && c != '\r'

/-- The lexeme that starts with `c` and goes on through the characters of the class `p`. -/
def Lexeme.run (kind : Option Token.Kind) (p : Char → Bool) (c : Char) (cs : List Char) : Lexeme :=
  ⟨kind, c :: cs.takeWhile p, cs.dropWhile p⟩

/-- What is wrong with the character behind a number, if anything is. -/
def suffixCause? : List Char → Option LexError.Cause
  | [] => none
  | c :: _ => if c = '.' then some .secondPoint else if isLetter c then some (.letterSuffix c) else none

/-- The number at the front of a text. -/
def numberLexeme (cs : List Char) : Except LexError.Cause Lexeme :=
  let (n, rest) := NumberText.scan cs
  if n.isIncomplete then .error (.incompleteExponent (String.ofList n.chars))
  else match suffixCause? rest with
    | some e => .error e
    | none => .ok ⟨some (.number n.numeral), n.chars, rest⟩

/-- The line end at the front of a text, where `c` is a carriage return or a line feed: the pair of
both is one line end. -/
def newlineLexeme (c : Char) (cs : List Char) : Lexeme :=
  if c = '\r' ∧ cs.head? = some '\n' then ⟨some .newline, [c, '\n'], cs.tail⟩
  else ⟨some .newline, [c], cs⟩

/-- The lexeme at the front of the text `c :: cs`. -/
def lexeme (c : Char) (cs : List Char) : Except LexError.Cause Lexeme :=
  if isDigit c then numberLexeme (c :: cs)
  else if isNameStart c then .ok (.run (some .name) isWordChar c cs)
  else if c = '\n' ∨ c = '\r' then .ok (newlineLexeme c cs)
  else if isGap c then .ok (.run none isGap c cs)
  else if c = '%' then .ok (.run none isComment c cs)
  else match Kind.ofChar? c with
    | some k => .ok ⟨some k, [c], cs⟩
    | none => .error (.unexpected c)

theorem Lexeme.run_append (kind : Option Token.Kind) (p : Char → Bool) (c : Char) (cs : List Char) :
    (Lexeme.run kind p c cs).chars ++ (Lexeme.run kind p c cs).rest = c :: cs := by
  simp [Lexeme.run, List.takeWhile_append_dropWhile]

theorem numberLexeme_append {cs : List Char} {l : Lexeme} (h : numberLexeme cs = .ok l) :
    l.chars ++ l.rest = cs := by
  simp only [numberLexeme] at h
  split at h
  · simp at h
  · split at h
    · simp at h
    · cases h
      exact NumberText.chars_scan_append cs

theorem newlineLexeme_append (c : Char) (cs : List Char) :
    (newlineLexeme c cs).chars ++ (newlineLexeme c cs).rest = c :: cs := by
  simp only [newlineLexeme]
  split
  · next h =>
      cases cs with
      | nil => simp at h
      | cons d ds => simp_all
  · rfl

/-- A lexeme and what follows it are the text. -/
theorem chars_append_rest {c : Char} {cs : List Char} {l : Lexeme} (h : lexeme c cs = .ok l) :
    l.chars ++ l.rest = c :: cs := by
  simp only [lexeme] at h
  split at h
  · exact numberLexeme_append h
  split at h
  · cases h; exact Lexeme.run_append ..
  split at h
  · cases h; exact newlineLexeme_append c cs
  split at h
  · cases h; exact Lexeme.run_append ..
  split at h
  · cases h; exact Lexeme.run_append ..
  split at h
  · cases h; rfl
  · simp at h

theorem numberLexeme_chars_ne_nil {c : Char} {cs : List Char} {l : Lexeme} (hc : isDigit c = true)
    (h : numberLexeme (c :: cs) = .ok l) : l.chars ≠ [] := by
  simp only [numberLexeme] at h
  split at h
  · simp at h
  · split at h
    · simp at h
    · cases h
      exact NumberText.chars_scan_ne_nil hc

/-- A lexeme has a character. -/
theorem lexeme_chars_ne_nil {c : Char} {cs : List Char} {l : Lexeme} (h : lexeme c cs = .ok l) :
    l.chars ≠ [] := by
  simp only [lexeme] at h
  split at h
  · next hc => exact numberLexeme_chars_ne_nil hc h
  split at h
  · cases h; simp [Lexeme.run]
  split at h
  · cases h; simp only [newlineLexeme]; split <;> simp
  split at h
  · cases h; simp [Lexeme.run]
  split at h
  · cases h; simp [Lexeme.run]
  split at h
  · cases h; simp
  · simp at h

/-- What follows a lexeme is shorter than the text. -/
theorem length_rest_lt {c : Char} {cs : List Char} {l : Lexeme} (h : lexeme c cs = .ok l) :
    l.rest.length < (c :: cs).length := by
  have h₁ := congrArg List.length (chars_append_rest h)
  have h₂ := List.length_pos_iff.2 (lexeme_chars_ne_nil h)
  simp only [List.length_append] at h₁
  omega

/-- The place behind a lexeme that starts at `p`. -/
def Lexeme.after (l : Lexeme) (p : Position) : Position :=
  if l.kind = some .newline then p.nextLine l.chars.length else p.advance l.chars.length

/-- The tokens with a lexeme at the place `p` in front, if the lexeme is one. -/
def Lexeme.pushTo (l : Lexeme) (p : Position) (ts : Tokens) : Tokens :=
  match l.kind with
  | some k => ts.push ⟨k, String.ofList l.chars, p⟩
  | none => ts

/-- The tokens of a text whose first character stands at `p`. -/
def lexFrom (p : Position) : List Char → Except LexError Tokens
  | [] => .ok ⟨[], p⟩
  | c :: cs =>
      match _hl : lexeme c cs with
      | .error e => .error ⟨e, p⟩
      | .ok l => (lexFrom (l.after p) l.rest).map (l.pushTo p)
termination_by cs => cs.length
decreasing_by exact length_rest_lt (by assumption)

@[simp] theorem lexFrom_nil (p : Position) : lexFrom p [] = .ok ⟨[], p⟩ := by
  rw [lexFrom]

/-- The tokens of a source text. -/
def lex (source : String) : Except LexError Tokens := lexFrom .start source.toList

/-- If something comes of the tokens of a text, it has tokens. -/
theorem exists_lex_of_map_eq_ok {α : Type} {source : String} {f : Tokens → α} {a : α}
    (h : (lex source).map f = .ok a) : ∃ ts, lex source = .ok ts ∧ f ts = a := by
  cases hlex : lex source with
  | error e =>
      rw [hlex] at h
      cases h
  | ok ts =>
      rw [hlex] at h
      exact ⟨ts, rfl, Except.ok.inj h⟩

end MatrixCalc
