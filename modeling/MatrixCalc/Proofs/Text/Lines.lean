/-
**Lines of a text, by what ends them.**

A source ends its lines at line feeds and carriage returns, an editor at more characters than these.  Either
way a carriage return with a line feed behind it is one line end.  A line stands behind the lines above it, and
of two texts in a row the last line of the first and the first line of the second are one line.  Where none of
the other characters stands, both ways cut the same lines.

Main definitions:

* `MatrixCalc.Text.isLineEnd` — whether a character ends a line of a source;
* `MatrixCalc.Text.cutLines` — the lines of a text that the characters of a class end.

Main results:

* `MatrixCalc.Text.cutLines_append` — **two texts in a row**;
* `MatrixCalc.Text.getElem?_cutLines_of_forall` — lines that end at more characters;
* `MatrixCalc.Text.exists_place_of_getElem?_cutLines` — the place behind the first characters of a line;
* `MatrixCalc.Text.cutLines_isLineBreak` — the lines that an editor counts.
-/

import MatrixCalc.Text.Lines
import Mathlib.Data.List.Basic

set_option autoImplicit false

namespace MatrixCalc

namespace Text

/-- Whether a character ends a line of a source. -/
def isLineEnd (c : Char) : Bool := c == '\n' || c == '\r'

/-- The lines of a text, without their ends.  The characters of the class `p` end a line, and a carriage return
with a line feed behind it is one line end.  Behind the last line end there is one more line. -/
def cutLines (p : Char → Bool) : List Char → List (List Char)
  | [] => [[]]
  | '\r' :: '\n' :: cs => [] :: cutLines p cs
  | c :: cs => if p c then [] :: cutLines p cs else prependToFirst c (cutLines p cs)

variable {p q : Char → Bool}

theorem isLineBreak_of_isLineEnd {c : Char} (h : isLineEnd c = true) : isLineBreak c = true := by
  rw [isLineEnd, Bool.or_eq_true, beq_iff_eq, beq_iff_eq] at h
  rcases h with rfl | rfl <;> rfl

/-! ### One character further -/

/-- Induction on a text that takes a carriage return with a line feed behind it as one. -/
theorem pairs_induction {motive : List Char → Prop} (nil : motive [])
    (pair : ∀ cs, motive cs → motive ('\r' :: '\n' :: cs))
    (cons : ∀ c cs, ¬ (c = '\r' ∧ cs.head? = some '\n') → motive cs → motive (c :: cs)) (cs : List Char) :
    motive cs := by
  fun_induction cutLines (fun _ => true) cs with
  | case1 => exact nil
  | case2 cs ih => exact pair cs ih
  | case3 c cs hpair hc ih =>
      refine cons c cs (fun h => ?_) ih
      obtain ⟨cs', rfl⟩ := List.head?_eq_some_iff.1 h.2
      exact hpair cs' h.1 rfl
  | case4 c cs hpair hc ih => exact absurd rfl hc

theorem prependToFirst_ne_nil (c : Char) (ls : List (List Char)) : prependToFirst c ls ≠ [] := by
  cases ls <;> simp

@[simp] theorem cutLines_nil : cutLines p [] = [[]] := by
  rw [cutLines]

theorem cutLines_pair (cs : List Char) : cutLines p ('\r' :: '\n' :: cs) = [] :: cutLines p cs := by
  rw [cutLines]

theorem cutLines_cons {c : Char} {cs : List Char} (h : ¬ (c = '\r' ∧ cs.head? = some '\n')) :
    cutLines p (c :: cs) = if p c then [] :: cutLines p cs else prependToFirst c (cutLines p cs) := by
  rw [cutLines]
  rintro cs' hc rfl
  exact h ⟨hc, rfl⟩

/-- **A text starts with its first line**, and a line end or the end of the text is behind it. -/
theorem exists_cutLines_eq_cons (hreturn : p '\r' = true) (cs : List Char) :
    ∃ y ys back, cutLines p cs = y :: ys ∧ cs = y ++ back ∧ ∀ c ∈ back.head?, p c = true := by
  induction cs using pairs_induction with
  | nil => exact ⟨[], [], [], cutLines_nil, rfl, by simp⟩
  | pair cs ih => exact ⟨[], _, _, cutLines_pair cs, rfl, by simp [hreturn]⟩
  | cons c cs hpair ih =>
      obtain ⟨y, ys, back, hcut, rfl, hback⟩ := ih
      rw [cutLines_cons hpair]
      split
      · next hc => exact ⟨[], _, _, rfl, rfl, by simp [hc]⟩
      · exact ⟨c :: y, ys, back, by rw [hcut, prependToFirst_cons], rfl, hback⟩

theorem cutLines_ne_nil (cs : List Char) : cutLines p cs ≠ [] := by
  induction cs using pairs_induction with
  | nil => simp
  | pair cs ih => simp [cutLines_pair]
  | cons c cs hpair ih =>
      rw [cutLines_cons hpair]
      split
      · simp
      · exact prependToFirst_ne_nil c _

/-- A text without line ends is one line. -/
theorem cutLines_of_forall {cs : List Char} (hend : p '\r' = true) (h : ∀ c ∈ cs, p c = false) :
    cutLines p cs = [cs] := by
  induction cs using pairs_induction with
  | nil => exact cutLines_nil
  | pair cs ih => rw [h '\r' (by simp)] at hend; cases hend
  | cons c cs hpair ih =>
      rw [cutLines_cons hpair, h c List.mem_cons_self, ih fun d hd => h d (List.mem_cons_of_mem c hd)]
      rfl

/-- A list of at least two elements that ends in `x` has its first element in front of that. -/
theorem exists_eq_cons_of_cons_eq_append {α : Type} {l x : α} {ls init : List α} (hls : ls ≠ [])
    (h : l :: ls = init ++ [x]) : ∃ init', init = l :: init' ∧ ls = init' ++ [x] := by
  cases init with
  | nil => exact absurd (List.cons.inj h).2 hls
  | cons l' init' =>
      obtain ⟨rfl, htail⟩ := List.cons.inj h
      exact ⟨init', rfl, htail⟩

/-- **Two texts in a row**: the last line of the first text and the first line of the second one are one line,
unless a carriage return and a line feed come together there. -/
theorem cutLines_append {a b x y : List Char} {init ys : List (List Char)} (ha : cutLines p a = init ++ [x])
    (hb : cutLines p b = y :: ys) (hpair : ¬ (a.getLast? = some '\r' ∧ b.head? = some '\n')) :
    cutLines p (a ++ b) = init ++ (x ++ y) :: ys := by
  induction a using pairs_induction generalizing init x with
  | nil =>
      obtain ⟨rfl, rfl⟩ : init = [] ∧ x = [] := by
        cases init <;> simp_all
      exact hb
  | pair a ih =>
      rw [cutLines_pair] at ha
      obtain ⟨init', rfl, ha'⟩ := exists_eq_cons_of_cons_eq_append (cutLines_ne_nil a) ha
      have hpair' : ¬ (a.getLast? = some '\r' ∧ b.head? = some '\n') := fun h =>
        hpair ⟨by simp [List.getLast?_cons, h.1], h.2⟩
      rw [List.cons_append, List.cons_append, cutLines_pair, ih ha' hpair', List.cons_append]
  | cons c a h ih =>
      have hpair' : ¬ (a.getLast? = some '\r' ∧ b.head? = some '\n') := fun h =>
        hpair ⟨by simp [List.getLast?_cons, h.1], h.2⟩
      have hcons : ¬ (c = '\r' ∧ (a ++ b).head? = some '\n') := by
        cases a with
        | nil => exact fun h => hpair ⟨by rw [h.1]; rfl, h.2⟩
        | cons d a => exact h
      rw [cutLines_cons h] at ha
      rw [List.cons_append, cutLines_cons hcons]
      split at ha
      · next hc =>
          obtain ⟨init', rfl, ha'⟩ := exists_eq_cons_of_cons_eq_append (cutLines_ne_nil a) ha
          rw [if_pos hc, ih ha' hpair', List.cons_append]
      · next hc =>
          obtain ⟨z, zs, hcut⟩ := List.exists_cons_of_ne_nil (cutLines_ne_nil (p := p) a)
          rw [hcut, prependToFirst_cons] at ha
          rw [if_neg hc]
          cases zs with
          | nil =>
              obtain ⟨rfl, rfl⟩ : init = [] ∧ x = c :: z := by
                cases init <;> simp_all
              rw [ih (show cutLines p a = [] ++ [z] from hcut) hpair']
              rfl
          | cons z' zs =>
              obtain ⟨init', rfl, ha'⟩ := exists_eq_cons_of_cons_eq_append (List.cons_ne_nil z' zs) ha
              rw [ih (show cutLines p a = (z :: init') ++ [x] by rw [hcut, ha', List.cons_append]) hpair']
              rfl

/-- The last line goes on through characters that end no line. -/
theorem cutLines_append_of_forall {a b x : List Char} {init : List (List Char)} (hreturn : p '\r' = true)
    (hfeed : p '\n' = true) (ha : cutLines p a = init ++ [x]) (hb : ∀ c ∈ b, p c = false) :
    cutLines p (a ++ b) = init ++ [x ++ b] := by
  refine cutLines_append ha (cutLines_of_forall hreturn hb) fun hpair => ?_
  have hline := hb '\n' (List.mem_of_mem_head? hpair.2)
  rw [hfeed] at hline
  cases hline

/-- A text ends with its last line, and is this line if it has no other one. -/
theorem exists_eq_append_of_cutLines {cs x : List Char} {init : List (List Char)}
    (h : cutLines p cs = init ++ [x]) : ∃ front, cs = front ++ x ∧ (init = [] → front = []) := by
  induction cs using pairs_induction generalizing x init with
  | nil =>
      obtain rfl : x = [] := by
        cases init <;> simp_all
      exact ⟨[], rfl, fun _ => rfl⟩
  | pair cs ih =>
      rw [cutLines_pair] at h
      obtain ⟨init', rfl, h'⟩ := exists_eq_cons_of_cons_eq_append (cutLines_ne_nil cs) h
      obtain ⟨front, hfront, -⟩ := ih h'
      exact ⟨'\r' :: '\n' :: front, by rw [hfront]; rfl, fun hnil => absurd hnil (List.cons_ne_nil _ _)⟩
  | cons c cs hpair ih =>
      rw [cutLines_cons hpair] at h
      split at h
      · obtain ⟨init', rfl, h'⟩ := exists_eq_cons_of_cons_eq_append (cutLines_ne_nil cs) h
        obtain ⟨front, hfront, -⟩ := ih h'
        exact ⟨c :: front, by rw [hfront]; rfl, fun hnil => absurd hnil (List.cons_ne_nil _ _)⟩
      · obtain ⟨z, zs, hcut⟩ := List.exists_cons_of_ne_nil (cutLines_ne_nil (p := p) cs)
        rw [hcut, prependToFirst_cons] at h
        cases zs with
        | nil =>
            obtain ⟨rfl, rfl⟩ : init = [] ∧ x = c :: z := by
              cases init <;> simp_all
            obtain ⟨front, hfront, hnil⟩ := ih (show cutLines p cs = [] ++ [z] from hcut)
            obtain rfl := hnil rfl
            exact ⟨[], by rw [hfront]; rfl, fun _ => rfl⟩
        | cons z' zs =>
            obtain ⟨init', rfl, h'⟩ := exists_eq_cons_of_cons_eq_append (List.cons_ne_nil z' zs) h
            obtain ⟨front, hfront, -⟩ := ih (show cutLines p cs = (z :: init') ++ [x] by rw [hcut, h']; rfl)
            exact ⟨c :: front, by rw [hfront]; rfl, fun hnil => absurd hnil (List.cons_ne_nil _ _)⟩

/-! ### Two classes of line ends -/

theorem cutLines_congr {cs : List Char} (h : ∀ c ∈ cs, p c = q c) : cutLines p cs = cutLines q cs := by
  induction cs using pairs_induction with
  | nil => rw [cutLines_nil, cutLines_nil]
  | pair cs ih => rw [cutLines_pair, cutLines_pair, ih fun c hc => h c (by simp [hc])]
  | cons c cs hpair ih =>
      rw [cutLines_cons hpair, cutLines_cons hpair, h c List.mem_cons_self,
        ih fun d hd => h d (List.mem_cons_of_mem c hd)]

/-- A line is the same if more characters end lines, but none of this line or of those above. -/
theorem getElem?_cutLines_of_forall {cs : List Char} (hpq : ∀ c, p c = true → q c = true) {n : Nat}
    {l : List Char} (hl : (cutLines p cs)[n]? = some l)
    (h : ∀ l' ∈ (cutLines p cs).take (n + 1), ∀ c ∈ l', q c = false) : (cutLines q cs)[n]? = some l := by
  induction cs using pairs_induction generalizing n l with
  | nil => simpa using hl
  | pair cs ih =>
      rw [cutLines_pair] at hl h ⊢
      cases n with
      | zero => exact hl
      | succ n => exact ih hl fun l' hl' => h l' (List.mem_cons_of_mem _ hl')
  | cons c cs hpair ih =>
      rw [cutLines_cons hpair] at hl h ⊢
      split at hl
      · next hc =>
          rw [if_pos hc] at h
          rw [if_pos (hpq c hc)]
          cases n with
          | zero => exact hl
          | succ n => exact ih hl fun l' hl' => h l' (List.mem_cons_of_mem _ hl')
      · next hc =>
          obtain ⟨y, ys, hcut⟩ := List.exists_cons_of_ne_nil (cutLines_ne_nil (p := p) cs)
          rw [if_neg hc, hcut, prependToFirst_cons] at h
          rw [hcut, prependToFirst_cons] at hl
          have hline : ∀ d ∈ c :: y, q d = false := h (c :: y) (by simp)
          have hfirst : (cutLines q cs)[0]? = some y := by
            refine ih (by rw [hcut]; rfl) fun l' hl' d hd => ?_
            obtain rfl : l' = y := by simpa [hcut] using hl'
            exact hline d (List.mem_cons_of_mem c hd)
          obtain ⟨z, zs, hcut'⟩ := List.exists_cons_of_ne_nil (cutLines_ne_nil (p := q) cs)
          obtain rfl : z = y := by simpa [hcut'] using hfirst
          rw [if_neg (by simp [hline c List.mem_cons_self]), hcut', prependToFirst_cons]
          cases n with
          | zero => exact hl
          | succ n =>
              have hrest := ih (n := n + 1) (l := l) (by rw [hcut]; exact hl) fun l' hl' d hd => ?_
              · rw [hcut'] at hrest
                exact hrest
              · rw [hcut, List.take_succ_cons] at hl'
                rcases List.mem_cons.1 hl' with rfl | hl'
                · exact hline d (List.mem_cons_of_mem c hd)
                · exact h l' (List.mem_cons_of_mem _ hl') d hd

/-! ### Where a line stands -/

/-- No character of a line ends a line. -/
theorem eq_false_of_mem_cutLines {cs l : List Char}
    (hl : l ∈ cutLines p cs) : ∀ c ∈ l, p c = false := by
  induction cs using pairs_induction generalizing l with
  | nil =>
      obtain rfl : l = [] := by simpa using hl
      simp
  | pair cs ih =>
      rw [cutLines_pair] at hl
      rcases List.mem_cons.1 hl with rfl | hl
      · simp
      · exact ih hl
  | cons c cs hpair ih =>
      rw [cutLines_cons hpair] at hl
      split at hl
      · rcases List.mem_cons.1 hl with rfl | hl
        · simp
        · exact ih hl
      · next hc =>
          obtain ⟨y, ys, hcut⟩ := List.exists_cons_of_ne_nil (cutLines_ne_nil (p := p) cs)
          rw [hcut] at hl ih
          rcases List.mem_cons.1 hl with rfl | hl
          · intro d hd
            rcases List.mem_cons.1 hd with rfl | hd
            · exact Bool.eq_false_iff.2 hc
            · exact ih List.mem_cons_self d hd
          · exact ih (List.mem_cons_of_mem y hl)

/-- **A line stands behind the lines above it**, and a line end or the end of the text is behind it. -/
theorem exists_split_of_getElem?_cutLines (hreturn : p '\r' = true) (hfeed : p '\n' = true) {cs l : List Char}
    {n : Nat} (h : (cutLines p cs)[n]? = some l) : ∃ front back init, cs = front ++ (l ++ back) ∧
      cutLines p front = init ++ [[]] ∧ init.length = n ∧ (∀ c ∈ front.getLast?, p c = true) ∧
      ∀ c ∈ back.head?, p c = true := by
  induction cs using pairs_induction generalizing n l with
  | nil =>
      obtain ⟨rfl, rfl⟩ : n = 0 ∧ l = [] := by
        cases n <;> simp_all
      exact ⟨[], [], [], rfl, cutLines_nil, rfl, by simp, by simp⟩
  | pair cs ih =>
      rw [cutLines_pair] at h
      cases n with
      | zero =>
          obtain rfl : [] = l := by simpa using h
          exact ⟨[], '\r' :: '\n' :: cs, [], rfl, cutLines_nil, rfl, by simp, by simp [hreturn]⟩
      | succ n =>
          obtain ⟨front, back, init, rfl, hcut, rfl, hlast, hback⟩ := ih h
          refine ⟨'\r' :: '\n' :: front, back, [] :: init, rfl, ?_, rfl, ?_, hback⟩
          · rw [cutLines_pair, hcut, List.cons_append]
          · cases front with
            | nil => simp [hfeed]
            | cons d front => simpa [List.getLast?_cons] using hlast
  | cons c cs hpair ih =>
      cases n with
      | zero =>
          obtain ⟨y, ys, back, hcut, htext, hback⟩ := exists_cutLines_eq_cons hreturn (c :: cs)
          obtain rfl : y = l := by simpa [hcut] using h
          exact ⟨[], back, [], htext, cutLines_nil, rfl, by simp, hback⟩
      | succ n =>
          rw [cutLines_cons hpair] at h
          have hfront : ∀ front back' : List Char, cs = front ++ back' →
              ¬ (c = '\r' ∧ front.head? = some '\n') := by
            rintro front back' rfl ⟨hc, hhead⟩
            exact hpair ⟨hc, by rw [List.head?_append, hhead]; rfl⟩
          split at h
          · next hc =>
              obtain ⟨front, back, init, htext, hcut, rfl, hlast, hback⟩ := ih h
              refine ⟨c :: front, back, [] :: init, by rw [htext]; rfl, ?_, rfl, ?_, hback⟩
              · rw [cutLines_cons (hfront front _ htext), if_pos hc, hcut, List.cons_append]
              · cases front with
                | nil => simp [hc]
                | cons d front => simpa [List.getLast?_cons] using hlast
          · next hc =>
              obtain ⟨y, ys, hcs⟩ := List.exists_cons_of_ne_nil (cutLines_ne_nil (p := p) cs)
              rw [hcs] at h ih
              obtain ⟨front, back, init, htext, hcut, hlength, hlast, hback⟩ := ih (n := n + 1) h
              obtain ⟨z, init', rfl⟩ := List.exists_cons_of_length_eq_add_one hlength
              refine ⟨c :: front, back, (c :: z) :: init', by rw [htext]; rfl, ?_, hlength, ?_, hback⟩
              · rw [cutLines_cons (hfront front _ htext), if_neg hc, hcut]
                rfl
              · cases front with
                | nil => simp at hcut
                | cons d front => simpa [List.getLast?_cons] using hlast

/-- The place behind the first characters of a line. -/
theorem exists_place_of_getElem?_cutLines (hreturn : p '\r' = true) (hfeed : p '\n' = true)
    {cs a b : List Char} {n : Nat} (h : (cutLines p cs)[n]? = some (a ++ b)) : ∃ front back init,
      cs = front ++ (a ++ (b ++ back)) ∧ cutLines p (front ++ a) = init ++ [a] ∧ init.length = n ∧
      (∀ c ∈ front.getLast?, p c = true) ∧ ∀ c ∈ back.head?, p c = true := by
  obtain ⟨front, back, init, htext, hcut, hlength, hlast, hback⟩ :=
    exists_split_of_getElem?_cutLines hreturn hfeed h
  have hline : ∀ c ∈ a, p c = false := fun c hc =>
    eq_false_of_mem_cutLines (List.mem_of_getElem? h) c (List.mem_append_left b hc)
  refine ⟨front, back, init, by rw [htext, List.append_assoc], ?_, hlength, hlast, hback⟩
  exact cutLines_append_of_forall hreturn hfeed hcut hline

/-! ### Lines of an editor -/

theorem lines_pair (cs : List Char) : lines ('\r' :: '\n' :: cs) = [] :: lines cs := by
  rw [lines]

theorem lines_cons {c : Char} {cs : List Char} (h : ¬ (c = '\r' ∧ cs.head? = some '\n')) :
    lines (c :: cs) = if isLineBreak c then [] :: lines cs else prependToFirst c (lines cs) := by
  rw [lines]
  rintro cs' hc rfl
  exact h ⟨hc, rfl⟩

/-- An editor counts the lines that its line breaks cut off, without an empty one at the end. -/
theorem cutLines_isLineBreak (cs : List Char) :
    cutLines isLineBreak cs = lines cs ∨ cutLines isLineBreak cs = lines cs ++ [[]] := by
  induction cs using pairs_induction with
  | nil => exact .inr cutLines_nil
  | pair cs ih =>
      rw [cutLines_pair, lines_pair]
      exact ih.imp (fun h => by rw [h]) fun h => by rw [h, List.cons_append]
  | cons c cs hpair ih =>
      rw [cutLines_cons hpair, lines_cons hpair]
      split
      · exact ih.imp (fun h => by rw [h]) fun h => by rw [h, List.cons_append]
      · rcases ih with h | h
        · exact .inl (by rw [h])
        · rw [h]
          cases lines cs with
          | nil => exact .inl rfl
          | cons l ls => exact .inr rfl

/-- Both ways cut the same lines where only line ends break lines. -/
theorem cutLines_isLineBreak_eq {cs : List Char} (h : ∀ c ∈ cs, isLineBreak c = true → isLineEnd c = true) :
    cutLines isLineBreak cs = cutLines isLineEnd cs := by
  refine cutLines_congr fun c hc => ?_
  rw [Bool.eq_iff_iff]
  exact ⟨h c hc, isLineBreak_of_isLineEnd⟩

theorem getElem?_cutLines_of_lines {cs l : List Char} {n : Nat} (h : (lines cs)[n]? = some l) :
    (cutLines isLineBreak cs)[n]? = some l := by
  rcases cutLines_isLineBreak cs with hcut | hcut
  · rw [hcut, h]
  · rw [hcut, List.getElem?_append_left (List.getElem?_eq_some_iff.1 h).1, h]

/-- An editor counts a line that its line breaks cut off, or the line is the empty one at the end. -/
theorem getElem?_lines_of_cutLines {cs l : List Char} {n : Nat} (h : (cutLines isLineBreak cs)[n]? = some l) :
    (lines cs)[n]? = some l ∨ l = [] ∧ (lines cs)[n]? = none := by
  rcases cutLines_isLineBreak cs with hcut | hcut
  · exact .inl (by rw [← hcut, h])
  · rw [hcut, List.getElem?_append] at h
    split at h
    · exact .inl h
    · next hn =>
        refine .inr ⟨?_, List.getElem?_eq_none (Nat.le_of_not_lt hn)⟩
        exact List.mem_singleton.1 (List.mem_of_getElem? h)

end Text

end MatrixCalc
