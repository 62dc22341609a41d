/-
**Tokens tile the source.**

Each token is the part of the text where it stands, and what lies between two tokens, in front of the first
and behind the last is blanks and comments, a comment reaching to the end of its line.  The line of a token
counts the line ends in front of it, and its column the characters since the last of these.  A text that cannot
be cut into tokens to its end is tiled up to the place of the error, and cut off there it gives the tokens that
were found.

Main definitions:

* `MatrixCalc.slice` — a part of a text;
* `MatrixCalc.Gap` — blanks and comments;
* `MatrixCalc.Behind` — a place is next to some tokens, with a gap between;
* `MatrixCalc.Tiles` — tokens tile a text up to where they end;
* `MatrixCalc.foundFrom`, `MatrixCalc.found` — the tokens up to where there is none any more.

Main results:

* `MatrixCalc.Lexeme.gap` — what is dropped is blanks or a comment;
* `MatrixCalc.Tiles.step` — tiling goes on by a lexeme;
* `MatrixCalc.Finds.tiles` — what a text starts with tiles it up to there;
* `MatrixCalc.Tiles.line_le` — tokens further behind are not further up;
* `MatrixCalc.lex_tiles` — **tokens tile the source**.
-/

import MatrixCalc.Parse.Outcome
import MatrixCalc.Proofs.Token.Front

set_option autoImplicit false

namespace MatrixCalc

open Text Token

/-! ### Where tokens stand -/

/-- The offset behind a token. -/
def Token.stop (t : Token) : Nat := t.position.offset + t.text.length

/-- The offset behind the last of some tokens; it is that of the start of the text if there is none. -/
def stopOf (ts : List Token) : Nat := (ts.getLast?.map Token.stop).getD 0

/-- The line ends among some tokens. -/
def newlines (ts : List Token) : List Token := ts.filter fun t => t.kind == .newline

/-- The characters of a text from the offset `i` up to the offset `j`. -/
def slice (cs : List Char) (i j : Nat) : List Char := (cs.drop i).take (j - i)

/-- Blanks and comments, in front of the text `back`.  A comment reaches to the end of its line. -/
inductive Gap (back : List Char) : List Char → Prop where
  | nil : Gap back []
  | blank {c : Char} {cs : List Char} (hc : c ∈ [' ', '\t', '\x0c', '\x0b']) (h : Gap back cs) :
      Gap back (c :: cs)
  | comment {cs : List Char} (hcs : ∀ c ∈ cs, c ≠ '\r' ∧ c ≠ '\n')
      (hback : ∀ c ∈ back.head?, c = '\r' ∨ c = '\n') : Gap back ('%' :: cs)

/-- The place `p` of the text `cs` is next to the tokens `before`: there is only a gap between, and its line and
column are counted from the line ends among them. -/
structure Behind (cs : List Char) (before : List Token) (p : Position) : Prop where
  /-- The tokens end in front of the place. -/
  stop_le : stopOf before ≤ p.offset
  gap : Gap (cs.drop p.offset) (slice cs (stopOf before) p.offset)
  line : p.line = 1 + (newlines before).length
  /-- The column counts the characters behind the last line end, from one. -/
  column : stopOf (newlines before) + p.column = p.offset + 1

/-- The tokens tile the text up to where they end. -/
structure Tiles (cs : List Char) (ts : Tokens) : Prop where
  finish_le : ts.finish.offset ≤ cs.length
  /-- A token is the part of the text where it stands. -/
  text : ∀ t ∈ ts.list, t.text ≠ "" ∧ t.stop ≤ ts.finish.offset ∧
    slice cs t.position.offset t.stop = t.text.toList
  /-- Offsets increase, and no token starts before another one ends. -/
  ordered : ts.list.Pairwise fun t u => t.position.offset < u.position.offset ∧ t.stop ≤ u.position.offset
  /-- Each token, and the end, is next to the tokens in front of it. -/
  next : ∀ before after, ts.list = before ++ after → Behind cs before (positionOf ts.finish after)

theorem slice_self (cs : List Char) (i : Nat) : slice cs i i = [] := by
  simp [slice]

/-- A part that goes on through the characters `taken`. -/
theorem slice_add {cs taken rest : List Char} {i j : Nat} (hij : i ≤ j) (h : cs.drop j = taken ++ rest) :
    slice cs i (j + taken.length) = slice cs i j ++ taken := by
  have hsplit : j + taken.length - i = (j - i) + taken.length := by omega
  have hdrop : (cs.drop i).drop (j - i) = taken ++ rest := by
    rw [List.drop_drop, Nat.add_sub_cancel' hij, h]
  rw [slice, hsplit, List.take_add, hdrop, List.take_left, slice]

theorem stopOf_concat (ts : List Token) (t : Token) : stopOf (ts ++ [t]) = t.stop := by
  simp [stopOf]

theorem positionOf_concat (finish : Position) (ts : List Token) (t : Token) :
    positionOf finish (ts ++ [t]) = positionOf t.position ts := by
  cases ts <;> rfl

/-! ### Gaps -/

namespace Gap

variable {back : List Char}

theorem blanks {cs : List Char} (h : ∀ c ∈ cs, isGap c = true) : Gap back cs := by
  induction cs with
  | nil => exact .nil
  | cons c cs ih =>
      refine .blank ?_ (ih fun d hd => h d (List.mem_cons_of_mem c hd))
      simpa [isGap, or_assoc] using h c List.mem_cons_self

/-- A gap does not start with a line end. -/
theorem head_ne {c : Char} {cs : List Char} (h : Gap back (c :: cs)) : ¬ (c = '\r' ∨ c = '\n') := by
  cases h with
  | blank hc _ =>
      simp only [List.mem_cons, List.not_mem_nil, or_false] at hc
      rcases hc with rfl | rfl | rfl | rfl <;> decide
  | comment _ _ => decide

/-- Two gaps are a gap.  The first one does not end in a comment, because the second one goes on with the
line. -/
theorem append {cs ds : List Char} (h : Gap (ds ++ back) cs) (h' : Gap back ds) (hne : ds ≠ []) :
    Gap back (cs ++ ds) := by
  induction h with
  | nil => exact h'
  | blank hc _ ih => exact .blank hc ih
  | comment hcs hback =>
      cases ds with
      | nil => exact absurd rfl hne
      | cons d ds => exact absurd (hback d (by simp)) h'.head_ne

end Gap

/-- **What is dropped is blanks or a comment.** -/
theorem Lexeme.gap {c : Char} {cs : List Char} {l : Lexeme} (h : lexeme c cs = .ok l) (hk : l.kind = none) :
    Gap l.rest l.chars := by
  simp only [lexeme] at h
  split at h
  · simp only [numberLexeme] at h
    split at h
    · cases h
    · split at h
      · cases h
      · obtain rfl := Except.ok.inj h
        cases hk
  split at h
  · obtain rfl := Except.ok.inj h
    cases hk
  split at h
  · obtain rfl := Except.ok.inj h
    simp only [newlineLexeme] at hk
    split at hk <;> cases hk
  split at h
  · next hc =>
      obtain rfl := Except.ok.inj h
      refine Gap.blanks fun d hd => ?_
      rcases List.mem_cons.1 hd with rfl | hd
      · exact hc
      · exact List.all_eq_true.1 List.all_takeWhile d hd
  split at h
  · next hc =>
      obtain rfl := Except.ok.inj h
      obtain rfl : c = '%' := hc
      refine .comment (fun d hd => ?_) fun d hd => ?_
      · have hd' : isComment d = true := List.all_eq_true.1 List.all_takeWhile d hd
        simpa [isComment, and_comm] using hd'
      · have hd' : (cs.dropWhile isComment).head? = some d := hd
        have hend := List.head?_dropWhile_not isComment cs
        rw [hd'] at hend
        simpa [isComment, or_comm, Classical.or_iff_not_imp_left] using hend
  split at h
  · obtain rfl := Except.ok.inj h
    cases hk
  · cases h

/-! ### One lexeme further -/

/-- The token that a lexeme at the place `p` is, if it is one. -/
def Lexeme.token? (l : Lexeme) (p : Position) : Option Token :=
  l.kind.map fun k => ⟨k, String.ofList l.chars, p⟩

theorem Lexeme.list_pushTo (l : Lexeme) (p : Position) (ts : Tokens) :
    (l.pushTo p ts).list = (l.token? p).toList ++ ts.list := by
  unfold pushTo token?
  cases l.kind <;> rfl

theorem Lexeme.offset_after (l : Lexeme) (p : Position) : (l.after p).offset = p.offset + l.chars.length := by
  unfold after
  split <;> rfl

namespace Behind

variable {cs rest : List Char} {before : List Token} {p : Position} {l : Lexeme}

/-- Behind a gap the tokens in front are the same. -/
theorem gap_after (h : Behind cs before p) (hrest : cs.drop p.offset = l.chars ++ l.rest)
    (hk : l.kind = none) (hgap : Gap l.rest l.chars) (hne : l.chars ≠ []) : Behind cs before (l.after p) := by
  have hdrop : cs.drop (p.offset + l.chars.length) = l.rest := by
    rw [← List.drop_drop, hrest, List.drop_left]
  have hafter : l.after p = p.advance l.chars.length := by simp [Lexeme.after, hk]
  obtain ⟨hle, hfront, hline, hcolumn⟩ := h
  rw [hrest] at hfront
  rw [hafter]
  refine ⟨Nat.le_add_right_of_le hle, ?_, hline, ?_⟩
  · show Gap (cs.drop (p.offset + l.chars.length)) (slice cs (stopOf before) (p.offset + l.chars.length))
    rw [hdrop, slice_add hle hrest]
    exact hfront.append hgap hne
  · show stopOf (newlines before) + (p.column + l.chars.length) = p.offset + l.chars.length + 1
    omega

/-- Behind a token it is in front, and there is no gap. -/
theorem token_after (h : Behind cs before p) {k : Token.Kind} (hk : l.kind = some k) :
    Behind cs (before ++ [⟨k, String.ofList l.chars, p⟩]) (l.after p) := by
  have hstop : stopOf (before ++ [⟨k, String.ofList l.chars, p⟩]) = (l.after p).offset := by
    rw [stopOf_concat, l.offset_after, Token.stop, String.length_ofList]
  refine ⟨Nat.le_of_eq hstop, ?_, ?_, ?_⟩
  · rw [hstop, slice_self]
    exact .nil
  · by_cases hnewline : k = .newline
    · simp [newlines, hnewline, Lexeme.after, hk, Position.nextLine, h.line, Nat.add_assoc]
    · simp [newlines, hnewline, Lexeme.after, hk, Position.advance, h.line]
  · by_cases hnewline : k = .newline
    · have hlast : newlines (before ++ [⟨k, String.ofList l.chars, p⟩]) =
          newlines before ++ [⟨k, String.ofList l.chars, p⟩] := by simp [newlines, hnewline]
      rw [hlast, stopOf_concat, Token.stop, String.length_ofList, l.offset_after]
      simp [Lexeme.after, hk, hnewline, Position.nextLine]
    · have hsame : newlines (before ++ [⟨k, String.ofList l.chars, p⟩]) = newlines before := by
        simp [newlines, hnewline]
      have hcolumn := h.column
      rw [hsame, l.offset_after]
      simp only [Lexeme.after, hk, Option.some.injEq, if_neg hnewline, Position.advance]
      omega

end Behind

namespace Tiles

variable {cs : List Char} {ts : List Token} {p : Position} {l : Lexeme}

/-- The empty front of a text. -/
theorem start (cs : List Char) : Tiles cs ⟨[], .start⟩ where
  finish_le := Nat.zero_le _
  text := by simp
  ordered := List.Pairwise.nil
  next before after h := by
    obtain ⟨rfl, rfl⟩ := List.append_eq_nil_iff.1 h.symm
    exact ⟨Nat.le_refl 0, by rw [stopOf]; exact Gap.nil, rfl, rfl⟩

/-- A lexeme lies within the text. -/
theorem offset_after_le (h : Tiles cs ⟨ts, p⟩) (hrest : cs.drop p.offset = l.chars ++ l.rest) :
    (l.after p).offset ≤ cs.length := by
  have hle : p.offset ≤ cs.length := h.finish_le
  have hlength := congrArg List.length hrest
  simp only [List.length_drop, List.length_append] at hlength
  rw [l.offset_after]
  omega

/-- Tokens that are in front of a lexeme stay what they are. -/
theorem text_after (h : Tiles cs ⟨ts, p⟩) (l : Lexeme) {t : Token} (ht : t ∈ ts) :
    t.text ≠ "" ∧ t.stop ≤ (l.after p).offset ∧ slice cs t.position.offset t.stop = t.text.toList := by
  obtain ⟨htext, hstop, hslice⟩ := h.text t ht
  refine ⟨htext, ?_, hslice⟩
  rw [l.offset_after]
  exact Nat.le_add_right_of_le hstop

/-- Tiling goes on by a gap. -/
theorem gap_after (h : Tiles cs ⟨ts, p⟩) (hrest : cs.drop p.offset = l.chars ++ l.rest) (hk : l.kind = none)
    (hgap : Gap l.rest l.chars) (hne : l.chars ≠ []) : Tiles cs ⟨ts, l.after p⟩ where
  finish_le := h.offset_after_le hrest
  text t ht := h.text_after l ht
  ordered := h.ordered
  next before after hsplit := by
    cases after with
    | nil =>
        obtain rfl : ts = before := by simpa using hsplit
        exact (h.next ts [] hsplit).gap_after hrest hk hgap hne
    | cons t after => exact h.next before (t :: after) hsplit

/-- Tiling goes on by a token. -/
theorem token_after (h : Tiles cs ⟨ts, p⟩) (hrest : cs.drop p.offset = l.chars ++ l.rest) {k : Token.Kind}
    (hk : l.kind = some k) (hne : l.chars ≠ []) :
    Tiles cs ⟨ts ++ [⟨k, String.ofList l.chars, p⟩], l.after p⟩ where
  finish_le := h.offset_after_le hrest
  text t ht := by
    rcases List.mem_append.1 ht with ht | ht
    · exact h.text_after l ht
    · obtain rfl := List.mem_singleton.1 ht
      have hpart := slice_add (Nat.le_refl p.offset) hrest
      rw [slice_self, List.nil_append] at hpart
      refine ⟨by simpa using hne, Nat.le_of_eq ?_, ?_⟩
      · rw [l.offset_after, Token.stop, String.length_ofList]
      · rw [Token.stop, String.length_ofList, String.toList_ofList, hpart]
  ordered := by
    refine List.pairwise_append.2 ⟨h.ordered, List.pairwise_singleton _ _, fun t ht u hu => ?_⟩
    obtain rfl := List.mem_singleton.1 hu
    obtain ⟨htext, hstop, -⟩ := h.text t ht
    have hpos : 0 < t.text.length := Nat.pos_of_ne_zero (by simpa using htext)
    exact ⟨by rw [Token.stop] at hstop; exact Nat.lt_of_lt_of_le (by omega) hstop, hstop⟩
  next before after hsplit := by
    dsimp only at hsplit ⊢
    rcases List.eq_nil_or_concat after with rfl | ⟨after, u, rfl⟩
    · obtain rfl : ts ++ [_] = before := by simpa using hsplit
      exact (h.next ts [] (List.append_nil ts).symm).token_after hk
    · rw [List.concat_eq_append, ← List.append_assoc] at hsplit
      obtain ⟨hts, hu⟩ := List.append_inj' hsplit rfl
      obtain rfl := List.singleton_inj.1 hu
      rw [List.concat_eq_append, positionOf_concat]
      exact h.next before after hts

/-- **Tiling goes on by a lexeme.** -/
theorem step (h : Tiles cs ⟨ts, p⟩) {c : Char} {rest : List Char} (hrest : cs.drop p.offset = c :: rest)
    (hl : lexeme c rest = .ok l) : Tiles cs ⟨ts ++ (l.token? p).toList, l.after p⟩ := by
  have hchars : cs.drop p.offset = l.chars ++ l.rest := by rw [chars_append_rest hl, hrest]
  have hne := lexeme_chars_ne_nil hl
  cases hk : l.kind with
  | none =>
      have hlist : ts ++ (l.token? p).toList = ts := by simp [Lexeme.token?, hk]
      rw [hlist]
      exact h.gap_after hchars hk (Lexeme.gap hl hk) hne
  | some k =>
      have hlist : ts ++ (l.token? p).toList = ts ++ [⟨k, String.ofList l.chars, p⟩] := by
        simp [Lexeme.token?, hk]
      rw [hlist]
      exact h.token_after hchars hk hne

end Tiles

/-! ### Tokens of a text -/

/-- The tokens of a text whose first character stands at `p`, up to where there is none any more. -/
def foundFrom (p : Position) : List Char → Tokens
  | [] => ⟨[], p⟩
  | c :: cs =>
      match _hl : lexeme c cs with
      | .error _ => ⟨[], p⟩
      | .ok l => l.pushTo p (foundFrom (l.after p) l.rest)
termination_by cs => cs.length
decreasing_by exact length_rest_lt (by assumption)

/-- The tokens of a source text, up to where there is none any more. -/
def found (source : String) : Tokens := foundFrom .start source.toList

theorem foundFrom_cons {p : Position} {c : Char} {cs : List Char} {l : Lexeme} (h : lexeme c cs = .ok l) :
    foundFrom p (c :: cs) = l.pushTo p (foundFrom (l.after p) l.rest) := by
  rw [foundFrom]
  split
  · next he =>
      rw [h] at he
      cases he
  · next hl => rw [Except.ok.inj (h.symm.trans hl)]

theorem foundFrom_cons_of_error {p : Position} {c : Char} {cs : List Char} {cause : LexError.Cause}
    (h : lexeme c cs = .error cause) : foundFrom p (c :: cs) = ⟨[], p⟩ := by
  rw [foundFrom]
  split
  · rfl
  · next hl =>
      rw [h] at hl
      cases hl

/-- **The tokens that are found** are those of the text, or they end where the error is. -/
theorem finds_foundFrom (p : Position) (cs : List Char) : ∃ rest, Finds p cs (foundFrom p cs) rest ∧
    (rest = [] ∧ lexFrom p cs = .ok (foundFrom p cs) ∨
      ∃ cause, lexFrom p cs = .error ⟨cause, (foundFrom p cs).finish⟩) := by
  induction p, cs using lexFrom.induct with
  | case1 p =>
      rw [foundFrom]
      exact ⟨[], .nil p [], .inl ⟨rfl, lexFrom_nil p⟩⟩
  | case2 p c cs cause he =>
      rw [foundFrom_cons_of_error he, lexFrom_cons_of_error he]
      exact ⟨_, .nil p _, .inr ⟨cause, rfl⟩⟩
  | case3 p c cs l hl ih =>
      obtain ⟨rest, hfinds, hlex⟩ := ih
      rw [foundFrom_cons hl, lexFrom_cons hl]
      refine ⟨rest, .cons hl hfinds, hlex.imp ?_ ?_⟩
      · rintro ⟨hrest, hok⟩
        exact ⟨hrest, by rw [hok]; rfl⟩
      · rintro ⟨cause, herror⟩
        refine ⟨cause, ?_⟩
        rw [herror, l.finish_pushTo]
        rfl

/-- **What a text starts with tiles it up to there**, if what is in front of that does. -/
theorem Finds.tiles {cs whole rest : List Char} {front : List Token} {p : Position} {ts : Tokens}
    (h : Finds p cs ts rest) (hfront : Tiles whole ⟨front, p⟩) (hcs : whole.drop p.offset = cs) :
    Tiles whole ⟨front ++ ts.list, ts.finish⟩ ∧ whole.drop ts.finish.offset = rest := by
  induction h generalizing front with
  | nil p cs =>
      rw [List.append_nil]
      exact ⟨hfront, hcs⟩
  | @cons p c cs rest l ts hl _ ih =>
      have hdrop : whole.drop (l.after p).offset = l.rest := by
        rw [l.offset_after, ← List.drop_drop, hcs, ← chars_append_rest hl, List.drop_left]
      rw [l.list_pushTo, l.finish_pushTo, ← List.append_assoc]
      exact ih (hfront.step hcs hl) hdrop

/-- The tokens of a text tile it. -/
theorem tiles_of_lex_ok {source : String} {ts : Tokens} (hlex : lex source = .ok ts) : Tiles source.toList ts := by
  obtain ⟨rest, hfinds, ⟨-, hok⟩ | ⟨cause, herror⟩⟩ := finds_foundFrom .start source.toList
  · obtain rfl : foundFrom .start source.toList = ts := Except.ok.inj (hok.symm.trans hlex)
    exact (hfinds.tiles (Tiles.start _) rfl).1
  · cases herror.symm.trans hlex

/-- **Tokens that are further behind are on the same line or further down.** -/
theorem Tiles.line_le {cs : List Char} {ts : Tokens} (h : Tiles cs ts) {back back' : List Token}
    (hback : back <:+ ts.list) (hback' : back' <:+ back) :
    (positionOf ts.finish back).line ≤ (positionOf ts.finish back').line := by
  obtain ⟨between, rfl⟩ := hback'
  obtain ⟨before, hbefore⟩ := hback
  have hline := (h.next before (between ++ back') hbefore.symm).line
  have hline' := (h.next (before ++ between) back' (by rw [← hbefore, List.append_assoc])).line
  rw [newlines, List.filter_append, List.length_append] at hline'
  rw [newlines] at hline
  omega

/-- Lines count from one. -/
theorem Tiles.one_le_line {cs : List Char} {ts : Tokens} (h : Tiles cs ts) {back : List Token}
    (hback : back <:+ ts.list) : 1 ≤ (positionOf ts.finish back).line := by
  obtain ⟨before, hbefore⟩ := hback
  have hline := (h.next before back hbefore.symm).line
  omega

/-- **Tokens tile the source**, to its end or up to the place of the error.  Cut off there, the text gives the
tokens that were found. -/
theorem lex_tiles (source : String) :
    match lex source with
    | .ok ts => Tiles source.toList ts ∧ ts.finish.offset = source.toList.length
    | .error e =>
        Tiles source.toList (found source) ∧ (found source).finish = e.position ∧
          lex (String.ofList (source.toList.take e.position.offset)) = .ok (found source) := by
  obtain ⟨rest, hfinds, hlex⟩ := finds_foundFrom .start source.toList
  obtain ⟨htiles, hrest⟩ := hfinds.tiles (Tiles.start _) rfl
  rcases hlex with ⟨rfl, hok⟩ | ⟨cause, herror⟩
  · have hlength := List.drop_eq_nil_iff.1 hrest
    simp only [lex, hok]
    exact ⟨htiles, Nat.le_antisymm htiles.finish_le hlength⟩
  · have hsplit : source.toList.take (found source).finish.offset ++ rest = source.toList := by
      rw [← hrest]
      exact List.take_append_drop _ _
    have hfront : Finds .start (source.toList.take (found source).finish.offset ++ rest) (found source) rest := by
      rw [hsplit]
      exact hfinds
    simp only [lex, herror]
    refine ⟨htiles, rfl, ?_⟩
    rw [String.toList_ofList]
    exact hfront.lexes.lexFrom_eq

end MatrixCalc
