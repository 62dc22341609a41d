/-
**What an editor shows is what the text has.**

An editor finds the names on a line without the lexemes of the text, and counts lines by more characters than the
text does.  At a name of the text, with only line ends breaking the lines in front of it, it shows the variable of
this name and marks the name.  The other way around, what is shown need not be a name of the text: a part of a
number reads as a name, too, and so does what stands in a comment behind a line break that does not end the
comment.  There is nothing else that it may be.

Main definitions:

* `MatrixCalc.Editor.Shows` — what an editor shows about a variable, and where;
* `MatrixCalc.Editor.Origin` — what of the text it comes from;
* `MatrixCalc.Editor.OnToken` — the token that it is shown on.

Main results:

* `MatrixCalc.Editor.hover?_of_mem` — **what an editor shows at a name**;
* `MatrixCalc.Editor.hover?_sound` — **what an editor shows about a variable** is shown at a name, in a number or in
  a comment;
* `MatrixCalc.Editor.hover?_in_number` — a variable that is shown inside of a number.
-/

import MatrixCalc.Proofs.Editor.Words
import MatrixCalc.Proofs.Token.Places
import Mathlib

set_option autoImplicit false

namespace MatrixCalc

open Text Token

/-! ### The line of a lexeme -/

section Line

variable {source : List Char} {ts : Tokens} {q : Position} {front : List Char} {l : Lexeme}

/-- **The line on which an editor shows a lexeme**, where only line ends break lines in front of it. -/
theorem Stands.exists_line (h : Stands .start source ts q front l)
    (hfront : ∀ c ∈ front, isLineBreak c = true → isLineEnd c = true) (hne : l.chars ≠ [])
    (hchars : ∀ c ∈ l.chars, isLineBreak c = false) : ∃ init x y back,
      cutLines isLineEnd front = init ++ [x] ∧ q.line = init.length + 1 ∧ q.column = x.length + 1 ∧
      (lines source)[init.length]? = some (x ++ (l.chars ++ y)) ∧ l.rest = y ++ back := by
  obtain ⟨-, init, x, hcut, hline, hcolumn⟩ := h.isBehind
  obtain ⟨y, ys, back, hrest, htext, -⟩ := exists_cutLines_eq_cons (p := isLineBreak) rfl l.rest
  have hcut' : cutLines isLineBreak (front ++ l.chars) = init ++ [x ++ l.chars] :=
    cutLines_append_of_forall rfl rfl ((cutLines_isLineBreak_eq hfront).trans hcut) hchars
  have hlines : cutLines isLineBreak source = init ++ ((x ++ l.chars) ++ y) :: ys := by
    rw [h.text, ← List.append_assoc]
    refine cutLines_append hcut' hrest fun hpair => ?_
    rw [List.getLast?_append_of_ne_nil _ hne] at hpair
    have hend := hchars '\r' (List.mem_of_mem_getLast? hpair.1)
    cases hend
  refine ⟨init, x, y, back, hcut, hline, hcolumn, ?_, htext⟩
  have hget : (cutLines isLineBreak source)[init.length]? = some (x ++ (l.chars ++ y)) := by
    rw [hlines, List.getElem?_append_right (Nat.le_refl _), Nat.sub_self, List.append_assoc]
    rfl
  rcases getElem?_lines_of_cutLines hget with hshown | ⟨hnil, -⟩
  · exact hshown
  · exact absurd (List.append_eq_nil_iff.1 (List.append_eq_nil_iff.1 hnil).2).1 hne

end Line

/-- In front of a name, on its line, no name goes on, and there is no percent sign. -/
theorem Seam.ended {front chars back x : List Char} {init : List (List Char)} (h : Seam front (chars ++ back))
    (hchars : IsName chars) (hcut : cutLines isLineEnd front = init ++ [x]) : Editor.Ended x ∧ '%' ∉ x := by
  obtain ⟨d, ds, rfl, hd⟩ := hchars.eq_cons
  have hword := isWordChar_of_isNameStart hd
  refine ⟨Editor.ended_of_getLast? fun c hc => ?_, fun hpercent => ?_⟩
  · obtain ⟨pre, rfl, -⟩ := exists_eq_append_of_cutLines hcut
    have hlast : c ∈ (pre ++ x).getLast? := by
      rw [List.getLast?_append_of_ne_nil _ (List.ne_nil_of_mem (List.mem_of_mem_getLast? hc))]
      exact hc
    by_contra hc'
    rw [h.apart c hlast d rfl (by simpa using hc')] at hword
    cases hword
  · have hend := h.code init x hcut hpercent d rfl
    rw [isLineEnd_of_isWordChar hword] at hend
    cases hend

namespace Editor

/-- What is shown at a character of a line. -/
theorem hover?_eq_some_iff {env : Env (Value Float)} {source : String} {line character : Int} {shown : Hover} :
    hover? env source line character = some shown ↔ ∃ (n k : Nat) (l : List Char) (w : Word) (v : Value Float),
      line = n ∧ character = k ∧ (lines source.toList)[n]? = some l ∧ wordAt? l k = some w ∧
      env.get? (String.ofList w.chars) = some v ∧
      shown = ⟨hoverText (String.ofList w.chars) v, ⟨line, w.start, w.stop⟩⟩ := by
  constructor
  · intro h
    simp only [hover?, guard, Option.bind_eq_bind, Option.bind_eq_some_iff] at h
    obtain ⟨_, hplace, l, hl, w, hw, v, hv, hshown⟩ := h
    split at hplace
    · next hplace' =>
        obtain ⟨n, rfl⟩ := Int.eq_ofNat_of_zero_le hplace'.1
        obtain ⟨k, rfl⟩ := Int.eq_ofNat_of_zero_le hplace'.2
        exact ⟨n, k, l, w, v, rfl, rfl, hl, hw, hv, (Option.some.inj hshown).symm⟩
    · cases hplace
  · rintro ⟨n, k, l, w, v, rfl, rfl, hl, hw, hv, rfl⟩
    have hplace : (0 : Int) ≤ n ∧ (0 : Int) ≤ k := ⟨Int.natCast_nonneg n, Int.natCast_nonneg k⟩
    simp only [hover?, guard, if_pos hplace, Int.toNat_natCast, hl, hw, hv, Option.bind_eq_bind, Option.bind_some,
      Option.pure_def]

/-! ### Names are found -/

/-- **What an editor shows at a name.** -/
theorem hover?_of_mem {source : String} {ts : Tokens} (hlex : lex source = .ok ts) {t : Token} (ht : t ∈ ts.list)
    (hk : t.kind = .name)
    (hfront : ∀ c ∈ source.toList.take t.position.offset, isLineBreak c = true → isLineEnd c = true)
    {env : Env (Value Float)} {v : Value Float} (hv : env.get? t.text = some v) {character : Int}
    (hstart : (t.position.column : Int) - 1 ≤ character)
    (hstop : character < (t.position.column : Int) - 1 + t.text.length) :
    hover? env source (t.position.line - 1) character = some ⟨hoverText t.text v,
      ⟨t.position.line - 1, t.position.column - 1, t.position.column - 1 + t.text.length⟩⟩ := by
  obtain ⟨front, l, hstands, hkind, hchars⟩ := (lexFrom_eq_ok_iff.1 hlex).exists_stands_of_mem ht
  rw [hk] at hkind
  obtain ⟨hname, hend⟩ := hstands.shape.isName hkind
  obtain ⟨d, ds, hcons, -⟩ := hname.eq_cons
  have hbreaks : ∀ c ∈ l.chars, isLineBreak c = false := fun c hc => isLineBreak_of_isWordChar (hname.2 c hc)
  rw [hstands.isBehind.offset, hstands.text, List.take_left] at hfront
  obtain ⟨init, x, y, back, hcut, hline, hcolumn, hshown, hrest⟩ :=
    hstands.exists_line hfront (by simp [hcons]) hbreaks
  obtain ⟨hended, hcode⟩ := hstands.seam_of_start.ended hname hcut
  have hcomment : '%' ∉ x ++ l.chars := fun hmem => by
    rcases List.mem_append.1 hmem with hmem | hmem
    · exact hcode hmem
    · exact hname.not_mem (by decide) hmem
  have hlength : t.text.length = l.chars.length := by rw [hchars, String.length_toList]
  obtain ⟨k, rfl⟩ := Int.eq_ofNat_of_zero_le (a := character) (by omega)
  have hword : wordAt? (x ++ (l.chars ++ y)) k = some ⟨x.length, l.chars⟩ := by
    have hstart' : x.length ≤ k := by omega
    have hstop' : k < x.length + l.chars.length := by omega
    refine wordAt?_eq_some_iff.2
      ⟨?_, ⟨hstart', hstop'⟩, x, y, rfl, (Nat.zero_add _).symm, hended, hname, fun c hc => ?_⟩
    · rw [← List.append_assoc]
      exact inComment_eq_false hcomment (by rwa [List.length_append])
    · exact hend c (by rw [hrest, List.head?_append, Option.mem_def.1 hc]; rfl)
  have htext : String.ofList l.chars = t.text := by rw [hchars, String.ofList_toList]
  refine hover?_eq_some_iff.2 ⟨init.length, k, _, _, v, by omega, rfl, hshown, hword, by rwa [htext], ?_⟩
  rw [htext, hcolumn, hlength, Word.stop]
  simp

/-! ### What is shown is a name or a part of a number -/

/-- What an editor shows about the variable `name`, which stands behind the characters `front` of a text. -/
structure Shows (env : Env (Value Float)) (source : String) (line character : Int) (shown : Hover)
    (front name : List Char) : Prop where
  source : ∃ back, source.toList = front ++ (name ++ back)
  value : ∃ v, env.get? (String.ofList name) = some v ∧ shown.text = hoverText (String.ofList name) v
  /-- The place is counted by the line breaks in front of it. -/
  place : ∃ init x, cutLines isLineBreak front = init ++ [x] ∧ line = init.length ∧
    shown.range = ⟨line, x.length, x.length + name.length⟩
  cursor : shown.range.start ≤ character ∧ character < shown.range.stop

/-- Where a name that an editor shows comes from. -/
inductive Origin (ts : Tokens) (front name : List Char) : Prop where
  /-- It is a name of the text. -/
  | name {t : Token} (ht : t ∈ ts.list) (hk : t.kind = .name) (htext : t.text.toList = name)
      (hplace : t.position.IsBehind front)
  /-- It is a part of a number, behind the first characters of it. -/
  | number {t : Token} {n : Decimal.Numeral} {before taken left : List Char} (ht : t ∈ ts.list)
      (hk : t.kind = .number n) (hplace : t.position.IsBehind before) (hfront : front = before ++ taken)
      (htaken : taken ≠ []) (htext : t.text.toList = taken ++ (name ++ left))
  /-- It is a part of a comment that goes on behind a line break. -/
  | comment {before taken : List Char} (hfront : front = before ++ '%' :: taken)
      (hcomment : ∀ c ∈ taken, isLineEnd c = false) (hbreak : ∃ c ∈ taken, isLineBreak c = true)

/-- A name on a line, in a text: the lines above are `pre`, and `a` is in front of it on its line. -/
structure OnLine (pre a name rest : List Char) : Prop where
  pre : ∀ c ∈ pre.getLast?, isLineBreak c = true
  ended : Ended a
  code : '%' ∉ a
  name : IsName name
  rest : ∀ c ∈ rest.head?, isWordChar c = false

namespace OnLine

variable {pre a name rest before taken left back : List Char}

/-- The last characters in front of the name stand on its line, or a line break is among them. -/
theorem taken_cases (h : OnLine pre a name rest) (hfront : pre ++ a = before ++ taken) :
    (∃ a', a = a' ++ taken) ∨ ∃ p' c, taken = p' ++ (c :: a) ∧ isLineBreak c = true := by
  rcases List.append_eq_append_iff.1 hfront with ⟨a', -, ha⟩ | ⟨p', hpre, htaken⟩
  · exact .inl ⟨a', ha⟩
  · cases hlast : p'.getLast? with
    | none =>
        obtain rfl := List.getLast?_eq_none_iff.1 hlast
        exact .inl ⟨[], htaken.symm⟩
    | some c =>
        obtain ⟨p'', rfl⟩ := List.getLast?_eq_some_iff.1 hlast
        refine .inr ⟨p'', c, by rw [htaken, List.append_assoc]; rfl, h.pre c ?_⟩
        rw [hpre, ← List.append_assoc]
        simp

/-- No other name that the name is a part of starts in front of it. -/
theorem taken_eq_nil (h : OnLine pre a name rest) (hfront : pre ++ a = before ++ taken)
    (hchars : IsName (taken ++ left)) : taken = [] := by
  cases taken with
  | nil => rfl
  | cons d taken =>
      obtain ⟨e, es, hcons, hd⟩ := hchars.eq_cons
      obtain rfl : d = e := (List.cons.inj hcons).1
      have hword : ∀ c ∈ d :: taken, isWordChar c = true := fun c hc => hchars.2 c (List.mem_append_left _ hc)
      rcases h.taken_cases hfront with ⟨a', ha⟩ | ⟨p', c, htaken, hbreak⟩
      · obtain ⟨c, hc, hend⟩ := h.ended a' d taken ha hd
        rw [hword c (List.mem_cons_of_mem d hc)] at hend
        cases hend
      · have hc := hword c (by rw [htaken]; simp)
        rw [isWordChar_of_isLineBreak hbreak] at hc
        cases hc

variable {source : List Char} {ts : Tokens} {q : Position} {l : Lexeme}

/-- A lexeme that a name starts in reaches to the end of the name. -/
theorem exists_left (h : OnLine pre a name rest) (hstands : Stands .start source ts q before l)
    (hchars : l.chars = taken ++ left) (hleft : left ≠ []) (hback : name ++ rest = left ++ l.rest) :
    ∃ left', left = name ++ left' := by
  rcases List.append_eq_append_iff.1 hback with ⟨left', hleft', -⟩ | ⟨m, hname, hrest⟩
  · exact ⟨left', hleft'⟩
  · cases m with
    | nil => exact ⟨[], by rw [hname, List.append_nil, List.append_nil]⟩
    | cons e m =>
        -- otherwise a word goes on from the lexeme to the next one
        obtain ⟨b, hb⟩ : ∃ b, b ∈ left.getLast? := ⟨_, List.getLast?_eq_some_getLast hleft⟩
        have hlast : b ∈ l.chars.getLast? := by
          rwa [hchars, List.getLast?_append_of_ne_nil _ hleft]
        have hword : isWordChar b = true ∧ isWordChar e = true := by
          rw [hname] at h
          exact ⟨h.name.2 b (List.mem_append_left _ (List.mem_of_mem_getLast? hb)),
            h.name.2 e (List.mem_append_right _ List.mem_cons_self)⟩
        have hend := hstands.isWordChar_behind hlast hword.1 (d := e) (by rw [hrest]; rfl)
        rw [hword.2] at hend
        cases hend

/-- A line break stands in a comment that the name is a part of. -/
theorem exists_isLineBreak (h : OnLine pre a name rest) (hfront : pre ++ a = before ++ '%' :: taken) :
    ∃ c ∈ taken, isLineBreak c = true := by
  rcases h.taken_cases hfront with ⟨a', ha⟩ | ⟨p', c, htaken, hbreak⟩
  · exact absurd (by simp [ha]) h.code
  · have hc : c ∈ '%' :: taken := by rw [htaken]; simp
    rcases List.mem_cons.1 hc with rfl | hc
    · cases hbreak
    · exact ⟨c, hc, hbreak⟩

/-- **Where a name on a line of an editor comes from**: it stands in a lexeme, of one of three classes. -/
theorem origin (h : OnLine pre a name rest) (hstands : Stands .start source ts q before l)
    (hfront : pre ++ a = before ++ taken) (hchars : l.chars = taken ++ left) (hleft : left ≠ [])
    (hback : name ++ rest = left ++ l.rest) : Origin ts (pre ++ a) name := by
  obtain ⟨left', rfl⟩ := h.exists_left hstands hchars hleft hback
  obtain ⟨d, name', hname, hd⟩ := h.name.eq_cons
  have hmem : d ∈ l.chars := by rw [hchars, hname]; simp
  have hword := isWordChar_of_isNameStart hd
  cases hstands.shape with
  | name hk hl hend =>
      rw [hchars] at hl
      obtain rfl := h.taken_eq_nil hfront hl
      obtain ⟨hsame, -⟩ := append_inj_of_isWordChar h.name.2 hl.2 h.rest hend hback
      rw [hfront, List.append_nil]
      refine .name (hstands.mem hk) rfl ?_ hstands.isBehind
      rw [String.toList_ofList, hchars]
      exact hsame.symm
  | number hk hdigit hl hend =>
      have htaken : taken ≠ [] := by
        rintro rfl
        obtain ⟨e, he, hdigit⟩ := hdigit
        rw [hchars, hname] at he
        obtain rfl : d = e := by simpa using he
        rw [isDigit_of_isNameStart hd] at hdigit
        cases hdigit
      have htext : (String.ofList l.chars).toList = taken ++ (name ++ left') := by
        rw [String.toList_ofList, hchars]
      exact .number (hstands.mem hk) rfl hstands.isBehind hfront htaken htext
  | newline hk hl =>
      have hend := isLineEnd_of_newline hl d hmem
      rw [isLineEnd_of_isWordChar hword] at hend
      cases hend
  | comment hk hl hcs hend =>
      rw [hl] at hchars
      cases taken with
      | nil =>
          rw [hname] at hchars
          obtain ⟨rfl, -⟩ := List.cons.inj hchars
          rw [isWordChar_of_mem_separatorChars (by decide)] at hword
          cases hword
      | cons e taken =>
          obtain ⟨rfl, rfl⟩ := List.cons.inj hchars
          exact .comment hfront (fun c hc => hcs c (List.mem_append_left _ hc)) (h.exists_isLineBreak hfront)
  | other hk hl =>
      rw [isWordChar_of_mem_separatorChars (hl d hmem).1] at hword
      cases hword

end OnLine

/-- A name that an editor shows at `r` is a name of the text at this place, or a part of a number around it. -/
inductive OnToken (ts : Tokens) (name : List Char) (r : Range) : Prop where
  | name {t : Token} (ht : t ∈ ts.list) (hk : t.kind = .name) (htext : t.text.toList = name)
      (hline : (t.position.line : Int) = r.line + 1) (hcolumn : (t.position.column : Int) = r.start + 1)
  | number {t : Token} {n : Decimal.Numeral} (ht : t ∈ ts.list) (hk : t.kind = .number n)
      (hline : (t.position.line : Int) = r.line + 1) (hstart : (t.position.column : Int) < r.start + 1)
      (hstop : r.stop + 1 ≤ (t.position.column : Int) + t.text.length)

theorem isLineEnd_of_mem_number {source : String} {ts : Tokens} (hlex : lex source = .ok ts) {t : Token}
    (ht : t ∈ ts.list) {n : Decimal.Numeral} (hk : t.kind = .number n) :
    ∀ c ∈ t.text.toList, isLineEnd c = false := by
  obtain ⟨front, l, hstands, hkind, hchars⟩ := (lexFrom_eq_ok_iff.1 hlex).exists_stands_of_mem ht
  rw [hk] at hkind
  rw [← hchars]
  rcases hstands.shape.newline_or with ⟨hk', -⟩ | ⟨-, hline, -⟩
  · rw [hkind] at hk'
    cases hk'
  · exact hline

/-- Where only line ends break lines, a name that an editor shows stands on a token of its line. -/
theorem Origin.onToken {source : String} {ts : Tokens} (hlex : lex source = .ok ts) {front name x : List Char}
    (h : Origin ts front name) (hfront : ∀ c ∈ front, isLineBreak c = true → isLineEnd c = true)
    {init : List (List Char)} (hcut : cutLines isLineBreak front = init ++ [x]) :
    OnToken ts name ⟨init.length, x.length, x.length + name.length⟩ := by
  have hcut' : cutLines isLineEnd front = init ++ [x] := (cutLines_isLineBreak_eq hfront).symm.trans hcut
  cases h with
  | name ht hk htext hplace =>
      obtain ⟨-, init', x', hplace, hline, hcolumn⟩ := hplace
      obtain ⟨rfl, hx⟩ := List.append_inj' (hcut'.symm.trans hplace) rfl
      obtain rfl : x = x' := by simpa using hx
      exact .name ht hk htext (by simp [hline]) (by simp [hcolumn])
  | @number t n before taken left ht hk hplace hfront' htaken htext =>
      obtain ⟨-, init', x', hplace, hline, hcolumn⟩ := hplace
      have hchars : ∀ c ∈ taken, isLineEnd c = false := fun c hc =>
        isLineEnd_of_mem_number hlex ht hk c (by rw [htext]; exact List.mem_append_left _ hc)
      rw [hfront', cutLines_append_of_forall rfl rfl hplace hchars] at hcut'
      obtain ⟨rfl, hx⟩ := List.append_inj' hcut' rfl
      obtain rfl : x' ++ taken = x := by simpa using hx
      have hlength := congrArg List.length htext
      have hpos := List.length_pos_of_ne_nil htaken
      simp only [String.length_toList, List.length_append] at hlength
      refine .number ht hk ?_ ?_ ?_
      · simp [hline]
      · simp only [hcolumn, List.length_append]
        omega
      · simp only [hcolumn, hlength, List.length_append]
        omega
  | comment hfront' hcomment hbreak =>
      obtain ⟨c, hc, hbreak⟩ := hbreak
      have hend := hfront c (by rw [hfront']; simp [hc]) hbreak
      rw [hcomment c hc] at hend
      cases hend

/-- **What an editor shows about a variable** is shown at a name of the text, in a number, or in a comment that goes
on behind a line break; and if only line ends break lines in front of it, at a token of its line. -/
theorem hover?_sound {source : String} {ts : Tokens} (hlex : lex source = .ok ts) {env : Env (Value Float)}
    {line character : Int} {shown : Hover} (h : hover? env source line character = some shown) :
    ∃ front name, Shows env source line character shown front name ∧ Origin ts front name ∧
      ((∀ c ∈ front, isLineBreak c = true → isLineEnd c = true) → OnToken ts name shown.range) := by
  obtain ⟨n, k, l, w, v, rfl, rfl, hl, hw, hv, rfl⟩ := hover?_eq_some_iff.1 h
  obtain ⟨hcomment, ⟨hstart, hstop⟩, a, b, hin⟩ := wordAt?_eq_some_iff.1 hw
  have hline := getElem?_cutLines_of_lines hl
  rw [hin.line] at hline
  obtain ⟨pre, back, init, hsource, hcut, rfl, hpre, hback⟩ := exists_place_of_getElem?_cutLines rfl rfl hline
  rw [List.append_assoc, ← List.append_assoc] at hsource
  have hne : w.chars ++ (b ++ back) ≠ [] := by
    obtain ⟨d, ds, hchars, -⟩ := hin.chars.eq_cons
    simp [hchars]
  have honline : OnLine pre a w.chars (b ++ back) := by
    refine ⟨hpre, hin.front, ?_, hin.chars, ?_⟩
    · have hfront := hin.start
      rw [hin.line] at hcomment
      exact not_mem_of_inComment hcomment (by omega)
    · intro c hc
      cases b with
      | nil => exact isWordChar_of_isLineBreak (hback c hc)
      | cons d b => exact hin.back c hc
  have horigin : Origin ts (pre ++ a) w.chars := by
    obtain ⟨q, before, l, taken, left, hstands, hfront, hchars, hleft, htext⟩ :=
      (lexFrom_eq_ok_iff.1 hlex).exists_stands_of_append hsource hne
    exact honline.origin hstands hfront hchars hleft htext
  have hrange : (⟨init.length, w.start, w.stop⟩ : Range) = ⟨init.length, a.length, a.length + w.chars.length⟩ := by
    simp [hin.start, Word.stop]
  refine ⟨pre ++ a, w.chars, ⟨⟨b ++ back, hsource⟩, ⟨v, hv, rfl⟩, ⟨init, a, hcut, rfl, hrange⟩, ?_⟩, horigin,
    fun hfront => ?_⟩
  · simp only
    omega
  · rw [hrange]
    exact horigin.onToken hlex hfront hcut

/-- A number with an exponent that is the name of a variable, too. -/
def exponentText : String := "1e5\r\ne5=2"

/-- The variable and its value. -/
def exponentEnv : Env (Value Float) := Env.empty.set "e5" (.scalar 2)

theorem get?_exponentEnv : exponentEnv.get? "e5" = some (.scalar 2) := by simp [exponentEnv]

theorem lex_exponentText : ∃ ts, lex exponentText = .ok ts ∧
    (ts.list.filter fun t => decide (t.kind = .name)) = [⟨.name, "e5", ⟨5, 2, 1⟩⟩] := by
  have hnames : (lex exponentText).map (fun ts => ts.list.filter fun t => decide (t.kind = .name)) =
      .ok [⟨.name, "e5", ⟨5, 2, 1⟩⟩] := by
    set_option maxRecDepth 100000 in cbv
  exact exists_lex_of_map_eq_ok hnames

theorem hover?_exponentText :
    hover? exponentEnv exponentText 0 1 = some ⟨hoverText "e5" (.scalar 2), ⟨0, 1, 3⟩⟩ := by
  refine hover?_eq_some_iff.2 ⟨0, 1, ['1', 'e', '5'], ⟨1, ['e', '5']⟩, .scalar 2, rfl, rfl, ?_, ?_,
    get?_exponentEnv, rfl⟩
  · decide +kernel
  · cbv

/-- The variable is shown inside of the number. -/
theorem hover?_in_number : ∃ ts shown, lex exponentText = .ok ts ∧
    hover? exponentEnv exponentText 0 1 = some shown ∧
    ¬ ∃ t ∈ ts.list, t.kind = .name ∧ (t.position.line : Int) = shown.range.line + 1 := by
  obtain ⟨ts, hlex, hnames⟩ := lex_exponentText
  refine ⟨ts, _, hlex, hover?_exponentText, ?_⟩
  rintro ⟨t, ht, hk, hline⟩
  have hmem : t ∈ ts.list.filter fun t => decide (t.kind = .name) := List.mem_filter.2 ⟨ht, by simpa using hk⟩
  rw [hnames] at hmem
  obtain rfl := List.mem_singleton.1 hmem
  cases hline

theorem hover?_sound_exponentText : ∃ ts shown, lex exponentText = .ok ts ∧
    hover? exponentEnv exponentText 0 1 = some shown ∧ ∃ front name,
      Shows exponentEnv exponentText 0 1 shown front name ∧ Origin ts front name ∧
      ((∀ c ∈ front, isLineBreak c = true → isLineEnd c = true) → OnToken ts name shown.range) := by
  obtain ⟨ts, hlex, -⟩ := lex_exponentText
  exact ⟨ts, _, hlex, hover?_exponentText, hover?_sound hlex hover?_exponentText⟩

theorem hover?_of_mem_exponentText : ∃ ts, lex exponentText = .ok ts ∧ ⟨.name, "e5", ⟨5, 2, 1⟩⟩ ∈ ts.list ∧
    hover? exponentEnv exponentText 1 1 = some ⟨hoverText "e5" (.scalar 2), ⟨1, 0, 2⟩⟩ := by
  obtain ⟨ts, hlex, hnames⟩ := lex_exponentText
  have hmem : ⟨.name, "e5", ⟨5, 2, 1⟩⟩ ∈ ts.list := by
    refine (List.mem_filter (p := fun t => decide (t.kind = .name))).1 ?_ |>.1
    rw [hnames]
    exact List.mem_singleton.2 rfl
  have hfront : ∀ c ∈ exponentText.toList.take 5, isLineBreak c = true → isLineEnd c = true := by
    have htake : exponentText.toList.take 5 = ['1', 'e', '5', '\r', '\n'] := by decide +kernel
    simp [htake, isLineBreak, isLineEnd]
  exact ⟨ts, hlex, hmem, hover?_of_mem hlex hmem rfl hfront get?_exponentEnv (by decide) (by decide)⟩

end Editor

end MatrixCalc
