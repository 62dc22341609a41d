/-
**Where the lexemes of a text stand.**

A place is known from the characters in front of it: its offset is their number, its line the number of line ends
among them and one more, its column the number of characters behind the last of these and one more.  Every token
stands behind the characters in front of it, and so does the place where a text stops being lexemes.  Each
character stands in one lexeme, and in front of a lexeme no word and no comment goes on.  So the lines of a
source are the parts between its line ends.

Main definitions:

* `MatrixCalc.Position.IsBehind` — a place behind some characters;
* `MatrixCalc.Stands` — where a lexeme of a text stands;
* `MatrixCalc.Seam` — what is known between two lexemes;
* `MatrixCalc.Position.IsIn` — a place of a text;
* `MatrixCalc.Tokens.lines` — the lines of a text, as its tokens count them.

Main results:

* `MatrixCalc.Stands.isBehind` — **a lexeme stands behind the characters in front of it**;
* `MatrixCalc.Finds.isBehind` — and so does what is behind the first tokens of a text;
* `MatrixCalc.Lexes.exists_stands_of_append` — every character stands in a lexeme;
* `MatrixCalc.Stands.seam` — in front of a lexeme no word and no comment goes on;
* `MatrixCalc.Position.IsIn.exists_line` — a place of a text is on one of its lines;
* `MatrixCalc.isIn_of_mem`, `MatrixCalc.isIn_of_lex_error` — every token is at a place of its text, and so is the
  error of a text that cannot be cut into tokens;
* `MatrixCalc.lines_eq_cutLines` — **the lines of a source are what stands between its line ends**.
-/

import MatrixCalc.Proofs.Token.Shapes
import MatrixCalc.Proofs.Token.Tiling

set_option autoImplicit false

namespace MatrixCalc

open Text Token

/-! ### Places -/

/-- No line end is cut in two between `front` and `back`. -/
def Unbroken (front back : List Char) : Prop := ¬ (front.getLast? = some '\r' ∧ back.head? = some '\n')

/-- The place `p` is behind the characters `front`, with its line and column counted from the line ends among
them. -/
structure Position.IsBehind (p : Position) (front : List Char) : Prop where
  offset : p.offset = front.length
  place : ∃ init x, cutLines isLineEnd front = init ++ [x] ∧ p.line = init.length + 1 ∧ p.column = x.length + 1

theorem Position.isBehind_start : Position.start.IsBehind [] :=
  ⟨rfl, [], [], cutLines_nil, rfl, rfl⟩

theorem isNumberChar_of_isLineEnd {c : Char} (h : isLineEnd c = true) : isNumberChar c = false := by
  rw [isLineEnd, Bool.or_eq_true, beq_iff_eq, beq_iff_eq] at h
  rcases h with rfl | rfl <;> decide

/-- A lexeme is a whole line end, or no line ends in it, and then only the end of the line is behind a percent
sign. -/
theorem Lexeme.Shape.newline_or {l : Lexeme} (h : l.Shape) : (l.kind = some .newline ∧ l.IsNewline) ∨
    (l.kind ≠ some .newline ∧ (∀ c ∈ l.chars, isLineEnd c = false) ∧
      ('%' ∈ l.chars → ∀ c ∈ l.rest.head?, isLineEnd c = true)) := by
  cases h with
  | number hk hdigit hchars hend =>
      refine .inr ⟨by simp [hk], fun c hc => ?_, fun hpercent => ?_⟩
      · by_contra hlineEnd
        have hchar := hchars c hc
        rw [isNumberChar_of_isLineEnd (by simpa using hlineEnd)] at hchar
        cases hchar
      · cases hchars '%' hpercent
  | name hk hchars hend =>
      exact .inr ⟨by simp [hk], fun c hc => isLineEnd_of_isWordChar (hchars.2 c hc), fun hpercent =>
        absurd hpercent (hchars.not_mem (by decide))⟩
  | newline hk hchars => exact .inl ⟨hk, hchars⟩
  | comment hk hchars hcs hend =>
      refine .inr ⟨by simp [hk], fun c hc => ?_, fun _ => hend⟩
      rw [hchars] at hc
      rcases List.mem_cons.1 hc with rfl | hc
      · rfl
      · exact hcs c hc
  | other hk hchars =>
      exact .inr ⟨hk.2, fun c hc => (hchars c hc).2.1, fun hpercent => absurd rfl (hchars '%' hpercent).2.2⟩

theorem cutLines_newline {l : Lexeme} (h : l.IsNewline) : cutLines isLineEnd l.chars = [[], []] := by
  rcases h with h | h | ⟨h, -⟩ <;> rw [h] <;> rfl

section After

variable {front cs : List Char} {c : Char} {l : Lexeme} {p : Position}

theorem Unbroken.after (hl : lexeme c cs = .ok l) : Unbroken (front ++ l.chars) l.rest := by
  rintro ⟨hreturn, hfeed⟩
  rw [List.getLast?_append_of_ne_nil _ (lexeme_chars_ne_nil hl)] at hreturn
  rcases (lexeme_shape hl).newline_or with ⟨-, h | h | ⟨-, h⟩⟩ | ⟨-, hline, -⟩
  · simp [h] at hreturn
  · simp [h] at hreturn
  · exact h hfeed
  · have hend := hline '\r' (List.mem_of_mem_getLast? hreturn)
    cases hend

/-- **One lexeme further**: the place behind a lexeme is behind its characters. -/
theorem Position.IsBehind.after (h : p.IsBehind front) (hl : lexeme c cs = .ok l)
    (hunbroken : Unbroken front (c :: cs)) : (l.after p).IsBehind (front ++ l.chars) := by
  obtain ⟨hoffset, init, x, hcut, hline, hcolumn⟩ := h
  refine ⟨by rw [l.offset_after, hoffset, List.length_append], ?_⟩
  rcases (lexeme_shape hl).newline_or with ⟨hk, hnewline⟩ | ⟨hk, hchars, -⟩
  · have hpair : Unbroken front l.chars := by
      rw [Unbroken, head?_chars_lexeme hl]
      exact hunbroken
    refine ⟨init ++ [x], [], ?_, ?_, ?_⟩
    · rw [cutLines_append hcut (cutLines_newline hnewline) hpair]
      simp
    · simp [Lexeme.after, hk, Position.nextLine, hline]
    · simp [Lexeme.after, hk, Position.nextLine]
  · refine ⟨init, x ++ l.chars, cutLines_append_of_forall rfl rfl hcut hchars, ?_, ?_⟩
    · simp [Lexeme.after, hk, Position.advance, hline]
    · simp [Lexeme.after, hk, Position.advance, hcolumn]
      omega

end After

/-- **The place behind the tokens that a text starts with** is behind their characters and the gaps between. -/
theorem Finds.isBehind {p : Position} {cs rest : List Char} {ts : Tokens} (h : Finds p cs ts rest)
    {front : List Char} (hp : p.IsBehind front) (hunbroken : Unbroken front cs) :
    ∃ taken, cs = taken ++ rest ∧ ts.finish.IsBehind (front ++ taken) ∧ Unbroken (front ++ taken) rest := by
  induction h generalizing front with
  | nil p cs => exact ⟨[], rfl, by rwa [List.append_nil], by rwa [List.append_nil]⟩
  | @cons p c cs rest l ts hl h ih =>
      obtain ⟨taken, htaken, hfinish, hrest⟩ := ih (hp.after hl hunbroken) (Unbroken.after hl)
      refine ⟨l.chars ++ taken, ?_, ?_, ?_⟩
      · rw [List.append_assoc, ← htaken, chars_append_rest hl]
      · rwa [l.finish_pushTo, ← List.append_assoc]
      · rwa [← List.append_assoc]

/-! ### Lexemes of a text -/

/-- In a text from `p` on that is cut into the tokens `ts`, the lexeme `l` stands at the place `q`, behind the
characters `front`. -/
inductive Stands : Position → List Char → Tokens → Position → List Char → Lexeme → Prop where
  | here {p : Position} {c : Char} {cs : List Char} {l : Lexeme} {ts : Tokens} (hl : lexeme c cs = .ok l)
      (h : Lexes (l.after p) l.rest ts) : Stands p (c :: cs) (l.pushTo p ts) p [] l
  | later {p q : Position} {c : Char} {cs front : List Char} {l l' : Lexeme} {ts : Tokens}
      (hl : lexeme c cs = .ok l) (h : Stands (l.after p) l.rest ts q front l') :
      Stands p (c :: cs) (l.pushTo p ts) q (l.chars ++ front) l'

namespace Stands

variable {p q : Position} {cs front : List Char} {ts : Tokens} {l : Lexeme}

/-- The text in front of a lexeme, the lexeme, and what is behind it. -/
theorem text (h : Stands p cs ts q front l) : cs = front ++ (l.chars ++ l.rest) := by
  induction h with
  | here hl h => exact (chars_append_rest hl).symm
  | later hl h ih => rw [List.append_assoc, ← ih, chars_append_rest hl]

theorem exists_lexeme (h : Stands p cs ts q front l) :
    ∃ c ds, l.chars ++ l.rest = c :: ds ∧ lexeme c ds = .ok l := by
  induction h with
  | here hl h => exact ⟨_, _, chars_append_rest hl, hl⟩
  | later hl h ih => exact ih

theorem shape (h : Stands p cs ts q front l) : l.Shape := by
  obtain ⟨c, ds, -, hl⟩ := h.exists_lexeme
  exact lexeme_shape hl

/-- A lexeme is a token of the text, unless it is a gap. -/
theorem mem (h : Stands p cs ts q front l) {k : Kind} (hk : l.kind = some k) :
    ⟨k, String.ofList l.chars, q⟩ ∈ ts.list := by
  induction h with
  | here hl h => simp [Lexeme.list_pushTo, Lexeme.token?, hk]
  | later hl h ih =>
      rw [Lexeme.list_pushTo]
      exact List.mem_append_right _ (ih hk)

/-- What is behind a lexeme is cut into tokens, too. -/
theorem lexes_rest (h : Stands p cs ts q front l) : ∃ ts', Lexes (l.after q) l.rest ts' := by
  induction h with
  | here hl h => exact ⟨_, h⟩
  | later hl h ih => exact ih

/-- No word goes on behind a lexeme. -/
theorem isWordChar_behind (h : Stands p cs ts q front l) {a d : Char} (ha : a ∈ l.chars.getLast?)
    (hword : isWordChar a = true) (hd : d ∈ l.rest.head?) : isWordChar d = false := by
  obtain ⟨c, cs, -, hl⟩ := h.exists_lexeme
  obtain ⟨ts', hrest⟩ := h.lexes_rest
  obtain ⟨ds, hds⟩ := List.head?_eq_some_iff.1 hd
  rw [hds] at hrest
  cases hrest with
  | cons hl' _ => exact isWordChar_behind_lexeme hl hds hl' a ha hword

theorem finds (h : Stands p cs ts q front l) : ∃ before, Finds p cs ⟨before, q⟩ (l.chars ++ l.rest) := by
  induction h with
  | here hl h =>
      rw [chars_append_rest hl]
      exact ⟨[], .nil _ _⟩
  | @later p q c cs front l l' ts hl h ih =>
      obtain ⟨before, hbefore⟩ := ih
      have hfinds := Finds.cons hl hbefore
      refine ⟨(l.pushTo p ⟨before, q⟩).list, ?_⟩
      have hpush : (⟨(l.pushTo p ⟨before, q⟩).list, q⟩ : Tokens) = l.pushTo p ⟨before, q⟩ := by
        have hfinish := l.finish_pushTo p ⟨before, q⟩
        cases hts : l.pushTo p ⟨before, q⟩
        rw [hts] at hfinish
        simpa using hfinish.symm
      rwa [hpush]

/-- **A lexeme stands at the place behind the characters in front of it.** -/
theorem isBehind (h : Stands .start cs ts q front l) : q.IsBehind front := by
  obtain ⟨before, hbefore⟩ := h.finds
  obtain ⟨taken, htaken, hfinish, -⟩ := hbefore.isBehind Position.isBehind_start (fun hpair => by simp at hpair)
  have htext := h.text
  rw [htaken, List.append_left_inj] at htext
  rwa [List.nil_append, htext] at hfinish

end Stands

namespace Lexes

variable {p : Position} {cs : List Char} {ts : Tokens}

/-- Every token stands somewhere. -/
theorem exists_stands_of_mem (h : Lexes p cs ts) {t : Token} (ht : t ∈ ts.list) : ∃ front l,
    Stands p cs ts t.position front l ∧ l.kind = some t.kind ∧ l.chars = t.text.toList := by
  induction h with
  | nil p => cases ht
  | @cons p c cs l ts hl h ih =>
      rw [Lexeme.list_pushTo] at ht
      rcases List.mem_append.1 ht with ht | ht
      · obtain ⟨k, hk, rfl⟩ : ∃ k, l.kind = some k ∧ t = ⟨k, String.ofList l.chars, p⟩ := by
          cases hk : l.kind with
          | none => simp [Lexeme.token?, hk] at ht
          | some k => exact ⟨k, rfl, by simpa [Lexeme.token?, hk] using ht⟩
        exact ⟨[], l, .here hl h, hk, String.toList_ofList.symm⟩
      · obtain ⟨front, l', hstands, hk, hchars⟩ := ih ht
        exact ⟨l.chars ++ front, l', .later hl hstands, hk, hchars⟩

/-- Every character stands in a lexeme. -/
theorem exists_stands_of_append (h : Lexes p cs ts) {front back : List Char} (hcs : cs = front ++ back)
    (hback : back ≠ []) : ∃ q before l taken left, Stands p cs ts q before l ∧ front = before ++ taken ∧
      l.chars = taken ++ left ∧ left ≠ [] ∧ back = left ++ l.rest := by
  induction h generalizing front with
  | nil p => exact absurd (List.append_eq_nil_iff.1 hcs.symm).2 hback
  | @cons p c cs l ts hl h ih =>
      have htext : l.chars ++ l.rest = front ++ back := by rw [chars_append_rest hl, hcs]
      -- the place lies within the first lexeme, or behind it
      have hcases : (∃ left, left ≠ [] ∧ l.chars = front ++ left ∧ back = left ++ l.rest) ∨
          ∃ front', front = l.chars ++ front' ∧ l.rest = front' ++ back := by
        rcases List.append_eq_append_iff.1 htext with ⟨front', hfront, hrest⟩ | ⟨left, hchars, hback'⟩
        · exact .inr ⟨front', hfront, hrest⟩
        · by_cases hleft : left = []
          · subst hleft
            exact .inr ⟨[], by simpa using hchars.symm, hback'.symm⟩
          · exact .inl ⟨left, hleft, hchars, hback'⟩
      rcases hcases with ⟨left, hleft, hchars, hback'⟩ | ⟨front', hfront, hrest⟩
      · exact ⟨p, [], l, front, left, .here hl h, rfl, hchars, hleft, hback'⟩
      · obtain ⟨q, before, l', taken, left, hstands, hbefore, hchars, hleft, hback'⟩ := ih hrest
        refine ⟨q, l.chars ++ before, l', taken, left, .later hl hstands, ?_, hchars, hleft, hback'⟩
        rw [hfront, hbefore, List.append_assoc]

end Lexes

/-! ### In front of a lexeme -/

/-- What is known between the lexemes `front` and the next ones. -/
structure Seam (front back : List Char) : Prop where
  unbroken : Unbroken front back
  /-- No word goes on. -/
  apart : ∀ c ∈ front.getLast?, ∀ d ∈ back.head?, isWordChar c = true → isWordChar d = false
  /-- A line with a comment comes to its end. -/
  code : ∀ init x, cutLines isLineEnd front = init ++ [x] → '%' ∈ x → ∀ d ∈ back.head?, isLineEnd d = true

theorem seam_nil (back : List Char) : Seam [] back where
  unbroken h := by simp at h
  apart c hc := by simp at hc
  code init x hcut hx := by
    rw [cutLines_nil] at hcut
    cases init <;> simp_all

/-- **One lexeme further.** -/
theorem Seam.after {front cs : List Char} {c : Char} {l : Lexeme} (h : Seam front (c :: cs))
    (hl : lexeme c cs = .ok l) (hrest : ∀ d ds, l.rest = d :: ds → ∃ l', lexeme d ds = .ok l') :
    Seam (front ++ l.chars) l.rest where
  unbroken := Unbroken.after hl
  apart a ha d hd := by
    rw [List.getLast?_append_of_ne_nil _ (lexeme_chars_ne_nil hl)] at ha
    obtain ⟨ds, hds⟩ := List.head?_eq_some_iff.1 hd
    obtain ⟨l', hl'⟩ := hrest d ds hds
    exact isWordChar_behind_lexeme hl hds hl' a ha
  code init x hcut hx := by
    obtain ⟨init', x', hfront⟩ : ∃ init' x', cutLines isLineEnd front = init' ++ [x'] :=
      ⟨_, _, (List.dropLast_append_getLast (cutLines_ne_nil front)).symm⟩
    rcases (lexeme_shape hl).newline_or with ⟨-, hnewline⟩ | ⟨-, hchars, hcomment⟩
    · have hpair : Unbroken front l.chars := by
        rw [Unbroken, head?_chars_lexeme hl]
        exact h.unbroken
      rw [cutLines_append hfront (cutLines_newline hnewline) hpair] at hcut
      obtain rfl : [] = x := by
        have hlast := congrArg List.getLast? hcut
        simpa using hlast
      cases hx
    · rw [cutLines_append_of_forall rfl rfl hfront hchars] at hcut
      obtain ⟨rfl, hline⟩ := List.append_inj' hcut rfl
      obtain rfl : x' ++ l.chars = x := by simpa using hline
      rcases List.mem_append.1 hx with hx | hx
      · -- the line would have come to its end in front of the lexeme
        have hc := h.code _ x' hfront hx c rfl
        rw [hchars c (List.mem_of_mem_head? (head?_chars_lexeme hl))] at hc
        cases hc
      · exact hcomment hx

theorem Stands.exists_first {p q : Position} {cs front : List Char} {ts : Tokens} {l : Lexeme}
    (h : Stands p cs ts q front l) : ∃ c ds l', cs = c :: ds ∧ lexeme c ds = .ok l' := by
  cases h with
  | here hl h => exact ⟨_, _, _, rfl, hl⟩
  | later hl h => exact ⟨_, _, _, rfl, hl⟩

/-- **In front of a lexeme** no word and no comment goes on. -/
theorem Stands.seam {p q : Position} {cs front : List Char} {ts : Tokens} {l : Lexeme}
    (h : Stands p cs ts q front l) {whole : List Char} (hwhole : Seam whole cs) :
    Seam (whole ++ front) (l.chars ++ l.rest) := by
  induction h generalizing whole with
  | here hl h => rwa [List.append_nil, chars_append_rest hl]
  | later hl h ih =>
      rw [← List.append_assoc]
      refine ih (hwhole.after hl fun d ds hds => ?_)
      obtain ⟨c, cs, l', hrest, hl'⟩ := h.exists_first
      obtain ⟨rfl, rfl⟩ := List.cons.inj (hds.symm.trans hrest)
      exact ⟨l', hl'⟩

/-- In front of a lexeme of a whole text no word and no comment goes on. -/
theorem Stands.seam_of_start {cs front : List Char} {ts : Tokens} {q : Position} {l : Lexeme}
    (h : Stands .start cs ts q front l) : Seam front (l.chars ++ l.rest) :=
  h.seam (seam_nil cs)

/-! ### Places of a text -/

/-- A place of a text: behind its first characters, with no line end cut in two. -/
def Position.IsIn (p : Position) (cs : List Char) : Prop :=
  ∃ front back, cs = front ++ back ∧ p.IsBehind front ∧ Unbroken front back

/-- **A place of a text is on one of its lines.** -/
theorem Position.IsIn.exists_line {p : Position} {cs : List Char} (h : p.IsIn cs) :
    ∃ l, (cutLines isLineEnd cs)[p.line - 1]? = some l ∧ 1 ≤ p.line ∧ 1 ≤ p.column ∧ p.column ≤ l.length + 1 := by
  obtain ⟨front, back, rfl, ⟨-, init, x, hcut, hline, hcolumn⟩, hunbroken⟩ := h
  obtain ⟨y, ys, hback⟩ := List.exists_cons_of_ne_nil (cutLines_ne_nil (p := isLineEnd) back)
  refine ⟨x ++ y, ?_, by omega, by omega, ?_⟩
  · have hindex : p.line - 1 = init.length := by omega
    rw [cutLines_append hcut hback hunbroken, hindex, List.getElem?_append_right (Nat.le_refl _), Nat.sub_self]
    rfl
  · rw [hcolumn, List.length_append]
    omega

/-- **Every token is at a place of its text.** -/
theorem isIn_of_mem {source : String} {ts : Tokens} (hlex : lex source = .ok ts) {t : Token} (ht : t ∈ ts.list) :
    t.position.IsIn source.toList := by
  obtain ⟨front, l, hstands, -, -⟩ := (lexFrom_eq_ok_iff.1 hlex).exists_stands_of_mem ht
  exact ⟨front, _, hstands.text, hstands.isBehind, hstands.seam_of_start.unbroken⟩

/-- The end of the tokens that are found is at a place of the text. -/
theorem isIn_found (source : String) : (found source).finish.IsIn source.toList := by
  obtain ⟨rest, hfinds, -⟩ := finds_foundFrom .start source.toList
  obtain ⟨taken, htaken, hfinish, hunbroken⟩ :=
    hfinds.isBehind Position.isBehind_start (fun hpair => by simp at hpair)
  exact ⟨taken, rest, htaken, hfinish, hunbroken⟩

theorem isIn_finish {source : String} {ts : Tokens} (hlex : lex source = .ok ts) :
    ts.finish.IsIn source.toList := by
  obtain ⟨rest, -, ⟨-, hok⟩ | ⟨cause, herror⟩⟩ := finds_foundFrom .start source.toList
  · obtain rfl : foundFrom .start source.toList = ts := Except.ok.inj (hok.symm.trans hlex)
    exact isIn_found source
  · cases herror.symm.trans hlex

/-- **An error is at a place of the text** that cannot be cut into tokens. -/
theorem isIn_of_lex_error {source : String} {e : LexError} (hlex : lex source = .error e) :
    e.position.IsIn source.toList := by
  obtain ⟨rest, -, ⟨-, hok⟩ | ⟨cause, herror⟩⟩ := finds_foundFrom .start source.toList
  · cases hok.symm.trans hlex
  · obtain rfl := Except.error.inj (herror.symm.trans hlex)
    exact isIn_found source

/-! ### Lines between tokens -/

/-- The parts of a text from the offset `i` up to the offset `finish` that stand between the tokens `ts`. -/
def between (cs : List Char) (i : Nat) (ts : List Token) (finish : Nat) : List (List Char) :=
  match ts with
  | [] => [slice cs i finish]
  | t :: ts => slice cs i t.position.offset :: between cs t.stop ts finish

/-- The lines of a text, as its tokens count them: the parts between the line ends. -/
def Tokens.lines (ts : Tokens) (cs : List Char) : List (List Char) :=
  between cs 0 (newlines ts.list) ts.finish.offset

/-- **What is between line ends goes on by a lexeme.** -/
theorem Lexes.between_eq {p : Position} {cs : List Char} {ts : Tokens} (h : Lexes p cs ts)
    {whole y : List Char} {ys : List (List Char)} (hwhole : whole.drop p.offset = cs) {i : Nat} (hi : i ≤ p.offset)
    (hcut : cutLines isLineEnd cs = y :: ys) :
    between whole i (newlines ts.list) ts.finish.offset = (slice whole i p.offset ++ y) :: ys := by
  induction h generalizing i y ys with
  | nil p =>
      obtain ⟨rfl, rfl⟩ : [] = y ∧ [] = ys := by simpa using hcut
      simp [newlines, between]
  | @cons p c cs l ts hl h ih =>
      have htext : whole.drop p.offset = l.chars ++ l.rest := by rw [hwhole, chars_append_rest hl]
      have hrest : whole.drop (l.after p).offset = l.rest := by
        rw [l.offset_after, ← List.drop_drop, htext, List.drop_left]
      have hpair : Unbroken ([] ++ l.chars) l.rest := Unbroken.after hl
      obtain ⟨z, zs, hz⟩ := List.exists_cons_of_ne_nil (cutLines_ne_nil (p := isLineEnd) l.rest)
      rw [← chars_append_rest hl] at hcut
      rw [l.list_pushTo, l.finish_pushTo]
      rcases (lexeme_shape hl).newline_or with ⟨hk, hnewline⟩ | ⟨hk, hchars, -⟩
      · have hfirst : cutLines isLineEnd l.chars = [[]] ++ [[]] := cutLines_newline hnewline
        rw [cutLines_append hfirst hz hpair] at hcut
        obtain ⟨rfl, rfl⟩ := List.cons.inj hcut
        have hnext := ih hrest (Nat.le_refl _) hz
        rw [slice_self, l.offset_after] at hnext
        simp [newlines, Lexeme.token?, hk, between, Token.stop] at hnext ⊢
        exact hnext
      · have hfirst : cutLines isLineEnd l.chars = [] ++ [l.chars] := cutLines_of_forall rfl hchars
        rw [cutLines_append hfirst hz hpair] at hcut
        obtain ⟨rfl, rfl⟩ := List.cons.inj hcut
        have hnext := ih hrest (i := i) (by rw [l.offset_after]; omega) hz
        rw [l.offset_after, slice_add hi htext, List.append_assoc] at hnext
        have hnewlines : newlines ((l.token? p).toList ++ ts.list) = newlines ts.list := by
          cases hkind : l.kind with
          | none => simp [Lexeme.token?, hkind]
          | some k =>
              have hne : k ≠ .newline := fun hk' => hk (by rw [hkind, hk'])
              simp [newlines, Lexeme.token?, hkind, hne]
        rw [hnewlines, hnext]

/-- **The lines of a source are what stands between its line ends.** -/
theorem lines_eq_cutLines {source : String} {ts : Tokens} (h : lex source = .ok ts) :
    ts.lines source.toList = cutLines isLineEnd source.toList := by
  obtain ⟨y, ys, hcut⟩ := List.exists_cons_of_ne_nil (cutLines_ne_nil (p := isLineEnd) source.toList)
  have hwhole : source.toList.drop Position.start.offset = source.toList := rfl
  have hbetween := (lexFrom_eq_ok_iff.1 h).between_eq hwhole (Nat.le_refl _) hcut
  rw [slice_self, List.nil_append] at hbetween
  rw [Tokens.lines, hcut]
  exact hbetween

end MatrixCalc
