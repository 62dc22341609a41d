/-
**The names on a line.**

The names on a line are found from left to right.  A name that is found starts where no other name goes on, and
goes on up to a character that does not go on with it; every name of this kind is found.  No two of them
overlap, so at most one reaches over a character, and it is the one found there.

Main definitions:

* `MatrixCalc.Editor.Ended` — no name goes on up to the end of these characters;
* `MatrixCalc.Editor.Word.IsIn` — a name on a line, with what is in front of it and behind it.

Main results:

* `MatrixCalc.Editor.mem_wordsFrom_iff` — **the names on a line**;
* `MatrixCalc.Editor.pairwise_wordsFrom` — a name ends in front of the next one;
* `MatrixCalc.Editor.wordAt?_eq_some_iff` — **the name at a character** is the one that reaches over it.
-/

import MatrixCalc.Editor.Hover
import MatrixCalc.Proofs.Token.Shapes
import Mathlib.Data.List.TakeWhile

set_option autoImplicit false

namespace MatrixCalc

namespace Editor

open Text

/-! ### Where a name can start -/

/-- No name that starts in `a` goes on up to its end. -/
def Ended (a : List Char) : Prop :=
  ∀ a₁ d a₂, a = a₁ ++ d :: a₂ → isNameStart d = true → ∃ c ∈ a₂, isWordChar c = false

theorem ended_nil : Ended [] := fun _ _ _ h _ => absurd h.symm (List.append_ne_nil_of_right_ne_nil _ (by simp))

theorem Ended.of_append {a b : List Char} (h : Ended (a ++ b)) : Ended b := fun a₁ d a₂ hb hd =>
  h (a ++ a₁) d a₂ (by rw [hb, List.append_assoc]) hd

theorem Ended.cons {c : Char} {a : List Char} (h : Ended a) (hc : isNameStart c = false) : Ended (c :: a) := by
  intro a₁ d a₂ ha hd
  cases a₁ with
  | nil =>
      obtain ⟨rfl, -⟩ := List.cons.inj ha
      rw [hc] at hd
      cases hd
  | cons e a₁ => exact h a₁ d a₂ (List.cons.inj ha).2 hd

/-- Behind another character no name goes on. -/
theorem ended_of_getLast? {a : List Char} (h : ∀ c ∈ a.getLast?, isWordChar c = false) : Ended a := by
  rintro a₁ d a₂ rfl hd
  rw [List.getLast?_append_of_ne_nil _ (List.cons_ne_nil d a₂), List.getLast?_cons] at h
  cases hlast : a₂.getLast? with
  | some c => exact ⟨c, List.mem_of_mem_getLast? hlast, h c (by simp [hlast])⟩
  | none =>
      have hword := h d (by simp [hlast])
      rw [isWordChar_of_isNameStart hd] at hword
      cases hword

/-- A run of word characters comes to its end where another character stands behind it. -/
theorem Ended.append {a b : List Char} (h : Ended b) (hb : ∃ c ∈ b.head?, isWordChar c = false) :
    Ended (a ++ b) := by
  intro a₁ d a₂ hab hd
  rcases List.append_eq_append_iff.1 hab with ⟨a', rfl, hb'⟩ | ⟨b', rfl, hcons⟩
  · exact h a' d a₂ hb' hd
  · obtain ⟨c, hc, hword⟩ := hb
    cases b' with
    | nil => exact h [] d a₂ hcons.symm hd
    | cons e b' =>
        obtain ⟨-, rfl⟩ := List.cons.inj hcons
        exact ⟨c, List.mem_append_right _ (List.mem_of_mem_head? hc), hword⟩

/-! ### The names on a line -/

/-- A name on a line, before which there are `k` characters: where no name goes on, and up to a character that does
not go on with it. -/
structure Word.IsIn (w : Word) (k : Nat) (line front back : List Char) : Prop where
  line : line = front ++ (w.chars ++ back)
  start : w.start = k + front.length
  front : Ended front
  chars : IsName w.chars
  back : ∀ c ∈ back.head?, isWordChar c = false

theorem wordsFrom_cons_of_isNameStart {k : Nat} {c : Char} (cs : List Char) (hc : isNameStart c = true) :
    wordsFrom k (c :: cs) = ⟨k, c :: cs.takeWhile isWordChar⟩ ::
      wordsFrom (k + (c :: cs.takeWhile isWordChar).length) (cs.dropWhile isWordChar) := by
  rw [wordsFrom, if_pos hc]
  rfl

theorem wordsFrom_cons {k : Nat} {c : Char} (cs : List Char) (hc : isNameStart c = false) :
    wordsFrom k (c :: cs) = wordsFrom (k + 1) cs := by
  rw [wordsFrom, if_neg (by simp [hc])]

namespace Word

variable {k : Nat} {c : Char} {cs : List Char} {w : Word}

/-- A name in the rest of a line behind a run of word characters is not at its start. -/
theorem IsIn.exists_head? {front back : List Char} (h : w.IsIn k (cs.dropWhile isWordChar) front back) :
    ∃ c ∈ front.head?, isWordChar c = false := by
  cases front with
  | cons c front =>
      have hhead : c ∈ (cs.dropWhile isWordChar).head? := by
        rw [h.line]
        rfl
      exact ⟨c, rfl, isWordChar_of_head?_dropWhile hhead⟩
  | nil =>
      obtain ⟨c, ds, hchars, hc⟩ := h.chars.eq_cons
      have hhead : c ∈ (cs.dropWhile isWordChar).head? := by
        rw [h.line, hchars]
        rfl
      have hword := isWordChar_of_head?_dropWhile hhead
      rw [isWordChar_of_isNameStart hc] at hword
      cases hword

/-- A name on a line whose first character starts no name. -/
theorem exists_isIn_cons (hc : isNameStart c = false) :
    (∃ front back, w.IsIn k (c :: cs) front back) ↔ ∃ front back, w.IsIn (k + 1) cs front back := by
  constructor
  · rintro ⟨front, back, h⟩
    have hline := h.line
    cases front with
    | nil =>
        obtain ⟨d, ds, hchars, hd⟩ := h.chars.eq_cons
        rw [hchars, List.nil_append] at hline
        obtain ⟨rfl, -⟩ := List.cons.inj hline
        rw [hc] at hd
        cases hd
    | cons d front =>
        obtain ⟨rfl, hcs⟩ := List.cons.inj hline
        refine ⟨front, back, hcs, ?_, Ended.of_append (a := [c]) h.front, h.chars, h.back⟩
        rw [h.start, List.length_cons]
        omega
  · rintro ⟨front, back, h⟩
    refine ⟨c :: front, back, ?_, ?_, h.front.cons hc, h.chars, h.back⟩
    · rw [h.line, List.cons_append]
    · rw [h.start, List.length_cons]
      omega

/-- A name on a line whose first character starts one: it is this one, or a name behind it. -/
theorem exists_isIn_of_isNameStart (hc : isNameStart c = true) : (∃ front back, w.IsIn k (c :: cs) front back) ↔
    w = ⟨k, c :: cs.takeWhile isWordChar⟩ ∨
      ∃ front back, w.IsIn (k + (c :: cs.takeWhile isWordChar).length) (cs.dropWhile isWordChar) front back := by
  have hcs : c :: cs = (c :: cs.takeWhile isWordChar) ++ cs.dropWhile isWordChar := by
    rw [List.cons_append, List.takeWhile_append_dropWhile]
  constructor
  · rintro ⟨front, back, h⟩
    have hline := h.line
    cases front with
    | nil =>
        rw [hcs, List.nil_append] at hline
        obtain ⟨hchars, -⟩ := append_inj_of_isWordChar (isName_takeWhile hc cs).2 h.chars.2
          (fun d hd => isWordChar_of_head?_dropWhile hd) h.back hline
        refine .inl ?_
        have hstart := h.start
        cases w
        simp_all
    | cons d front =>
        obtain ⟨rfl, -⟩ := List.cons.inj hline
        -- the first name ends in front of the other one
        obtain ⟨e, he, hword⟩ := h.front [] c front rfl hc
        have hend : front.dropWhile isWordChar ≠ [] := fun hnil => by
          rw [List.dropWhile_eq_nil_iff.1 hnil e he] at hword
          cases hword
        have hback : ∀ d ∈ (front.dropWhile isWordChar ++ (w.chars ++ back)).head?, isWordChar d = false := by
          intro d hd
          rw [List.head?_append_of_ne_nil _ hend] at hd
          exact isWordChar_of_head?_dropWhile hd
        have hfront : c :: front = (c :: front.takeWhile isWordChar) ++ front.dropWhile isWordChar := by
          rw [List.cons_append, List.takeWhile_append_dropWhile]
        rw [hcs, hfront, List.append_assoc] at hline
        obtain ⟨htake, hdrop⟩ := append_inj_of_isWordChar (isName_takeWhile hc cs).2 (isName_takeWhile hc front).2
          (fun d hd => isWordChar_of_head?_dropWhile hd) hback hline
        refine .inr ⟨front.dropWhile isWordChar, back, hdrop, ?_, ?_, h.chars, h.back⟩
        · rw [h.start, htake, hfront, List.length_append, Nat.add_assoc]
        · have hended := h.front
          rw [hfront] at hended
          exact hended.of_append
  · rintro (rfl | ⟨front, back, h⟩)
    · exact ⟨[], cs.dropWhile isWordChar, hcs, rfl, ended_nil, isName_takeWhile hc cs,
        fun d hd => isWordChar_of_head?_dropWhile hd⟩
    · refine ⟨(c :: cs.takeWhile isWordChar) ++ front, back, ?_, ?_, h.front.append h.exists_head?, h.chars, h.back⟩
      · rw [List.append_assoc, ← h.line, ← hcs]
      · rw [h.start, List.length_append, Nat.add_assoc]

end Word

/-- **The names on a line.** -/
theorem mem_wordsFrom_iff {k : Nat} {line : List Char} {w : Word} :
    w ∈ wordsFrom k line ↔ ∃ front back, w.IsIn k line front back := by
  induction k, line using wordsFrom.induct with
  | case1 k =>
      rw [wordsFrom]
      refine ⟨fun h => absurd h List.not_mem_nil, ?_⟩
      rintro ⟨front, back, h⟩
      obtain ⟨c, cs, hchars, -⟩ := h.chars.eq_cons
      have hline := h.line
      simp [hchars] at hline
  | case2 k c cs hc first ih => 
      have hstop : first.stop = k + (c :: cs.takeWhile isWordChar).length := rfl
      rw [wordsFrom_cons_of_isNameStart cs hc, List.mem_cons, Word.exists_isIn_of_isNameStart hc, ← hstop, ih]
  | case3 k c cs hc ih => 
      have hc : isNameStart c = false := by simpa using hc
      rw [wordsFrom_cons cs hc, Word.exists_isIn_cons hc, ih]

/-- A name ends in front of the next one. -/
theorem pairwise_wordsFrom (k : Nat) (line : List Char) :
    (wordsFrom k line).Pairwise fun v w => v.stop ≤ w.start := by
  induction k, line using wordsFrom.induct with
  | case1 k =>
      rw [wordsFrom]
      exact .nil
  | case2 k c cs hc first ih =>
      have hstop : first.stop = k + (c :: cs.takeWhile isWordChar).length := rfl
      rw [wordsFrom_cons_of_isNameStart cs hc, ← hstop]
      refine .cons (fun w hw => ?_) ih
      obtain ⟨front, back, h⟩ := mem_wordsFrom_iff.1 hw
      rw [h.start]
      exact Nat.le_add_right _ _
  | case3 k c cs hc ih =>
      rwa [wordsFrom_cons cs (by simpa using hc)]

/-! ### The name at a character -/

/-- Where there is no comment, none starts in front of it. -/
theorem not_mem_of_inComment {front rest : List Char} {k : Nat} (h : inComment (front ++ rest) k = false)
    (hk : front.length ≤ k + 1) : '%' ∉ front := by
  intro hmem
  rw [inComment, List.take_append, List.take_of_length_le hk, List.contains_eq_mem] at h
  simp [hmem] at h

theorem inComment_eq_false {front rest : List Char} {k : Nat} (h : '%' ∉ front) (hk : k < front.length) :
    inComment (front ++ rest) k = false := by
  rw [inComment, List.take_append_of_le_length hk, List.contains_eq_mem, decide_eq_false_iff_not]
  exact fun hmem => h (List.mem_of_mem_take hmem)

/-- **The name at a character** is the one that reaches over it, outside of comments. -/
theorem wordAt?_eq_some_iff {line : List Char} {k : Nat} {w : Word} : wordAt? line k = some w ↔
    inComment line k = false ∧ (w.start ≤ k ∧ k < w.stop) ∧ ∃ front back, w.IsIn 0 line front back := by
  rw [wordAt?, ← mem_wordsFrom_iff]
  by_cases hcomment : inComment line k = true
  · simp [hcomment]
  rw [if_neg hcomment, List.find?_eq_some_iff_append]
  simp only [Bool.and_eq_true, decide_eq_true_eq, words]
  refine ⟨?_, ?_⟩
  · rintro ⟨hat, before, behind, hwords, -⟩
    exact ⟨by simpa using hcomment, hat, by simp [hwords]⟩
  · rintro ⟨-, hat, hw⟩
    obtain ⟨before, behind, hwords⟩ := List.append_of_mem hw
    refine ⟨hat, before, behind, hwords, fun v hv => ?_⟩
    -- the names in front of it end in front of the character
    have hpairwise := pairwise_wordsFrom 0 line
    rw [hwords, List.pairwise_append] at hpairwise
    have hend := hpairwise.2.2 v hv w List.mem_cons_self
    simp only [Bool.not_eq_true', Bool.and_eq_false_iff, decide_eq_false_iff_not]
    omega

end Editor
end MatrixCalc
