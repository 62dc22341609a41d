/-
**What an editor marks for a diagnostic.**

A diagnostic is on a line of the source, and at a column of it if it names one.  An editor marks this line from the
column on, as long as only line ends break lines up to there.  Other line breaks may stand in comments, and form
feeds and vertical tabs between tokens, too.  At one of these the editor starts another line, so that what it marks
need not be the rest of the line.  In any case it is a range that the editor can represent.

Main definitions:

* `MatrixCalc.Editor.columnStart` — the number of characters in front of the column of a diagnostic;
* `MatrixCalc.Editor.Marks` — how an editor marks a diagnostic of a source.

Main results:

* `MatrixCalc.Editor.lineLength_eq` — the length of a line of a source;
* `MatrixCalc.Editor.exists_marks_of_isIn` — how an editor marks what is at a place of a source;
* `MatrixCalc.Session.exists_marks` — **how an editor marks a diagnostic of a session**;
* `MatrixCalc.Session.range_of_formFeed` — a diagnostic behind a form feed.
-/

import MatrixCalc.Editor.Report
import MatrixCalc.Proofs.Session.Located
import Mathlib

set_option autoImplicit false

namespace MatrixCalc

open Text

/-! ### How many lines there are, and how long they are -/

namespace Text

theorem length_cutLines_le (p : Char → Bool) (cs : List Char) : (cutLines p cs).length ≤ cs.length + 1 := by
  induction cs using pairs_induction with
  | nil => exact Nat.le_refl _
  | pair cs ih =>
      rw [cutLines_pair]
      simp only [List.length_cons]
      omega
  | cons c cs hpair ih =>
      rw [cutLines_cons hpair]
      split
      · simp only [List.length_cons]
        omega
      · obtain ⟨y, ys, hcut⟩ := List.exists_cons_of_ne_nil (cutLines_ne_nil (p := p) cs)
        rw [hcut] at ih ⊢
        simp only [prependToFirst_cons, List.length_cons] at ih ⊢
        omega

theorem length_le_of_getElem?_lines {cs l : List Char} {n : Nat} (h : (lines cs)[n]? = some l) :
    l.length ≤ cs.length := by
  obtain ⟨front, back, -, rfl, -⟩ := exists_split_of_getElem?_cutLines rfl rfl (getElem?_cutLines_of_lines h)
  simp only [List.length_append]
  omega

end Text

namespace Editor

theorem lineLength_nonneg (ls : List (List Char)) (n : Int) : 0 ≤ lineLength ls n := by
  rw [lineLength]
  split
  · cases ls[n.toNat]? with
    | none => exact Int.le_refl _
    | some l => exact Int.natCast_nonneg _
  · exact Int.le_refl _

theorem lineLength_le (cs : List Char) (n : Int) : lineLength (lines cs) n ≤ cs.length := by
  rw [lineLength]
  split
  · cases hl : (lines cs)[n.toNat]? with
    | none => exact Int.natCast_nonneg _
    | some l => exact Int.ofNat_le.2 (length_le_of_getElem?_lines hl)
  · exact Int.natCast_nonneg _

/-- **The length of a line of a source**, where only line ends break lines up to there. -/
theorem lineLength_eq {cs l : List Char} {n : Nat} (hl : (cutLines isLineEnd cs)[n]? = some l)
    (hbreak : ∀ l' ∈ (cutLines isLineEnd cs).take (n + 1), ∀ c ∈ l', isLineBreak c = false) :
    lineLength (lines cs) n = l.length := by
  have hcut : (cutLines isLineBreak cs)[n]? = some l :=
    getElem?_cutLines_of_forall (fun _ => isLineBreak_of_isLineEnd) hl hbreak
  rw [lineLength, if_pos (Int.natCast_nonneg n), Int.toNat_natCast]
  rcases getElem?_lines_of_cutLines hcut with hline | ⟨rfl, hline⟩
  · rw [hline]
    rfl
  · rw [hline]
    rfl

/-! ### Ranges of diagnostics -/

/-- The number of characters in front of the column of a diagnostic. -/
def columnStart (d : Diagnostic) : Int := (d.column.map fun c => c - 1).getD 0

/-- How an editor marks a diagnostic `d` of a source, which is on the line `l` of the source. -/
structure Marks (source : String) (d : Diagnostic) (l : List Char) : Prop where
  line : 1 ≤ d.line ∧ (cutLines isLineEnd source.toList)[(d.line - 1).toNat]? = some l
  column : ∀ c ∈ d.column, 1 ≤ c ∧ c ≤ l.length + 1
  /-- Whatever breaks lines, the range is on the line of this number, and starts at the column or in front of it. -/
  bounds : ∃ start stop : Int, (Report.ofDiagnostic (lines source.toList) d).range = ⟨d.line - 1, start, stop⟩ ∧
    0 ≤ start ∧ start ≤ columnStart d ∧ start ≤ stop ∧ stop ≤ source.length
  /-- An editor knows the range unless the source is too long for it. -/
  known : ∀ greatest : Int, source.length ≤ greatest →
    Report.ofDiagnostic? greatest (lines source.toList) d = .ok (Report.ofDiagnostic (lines source.toList) d)
  /-- The range is the rest of the line, if only line ends break lines up to there. -/
  range : (∀ l' ∈ (cutLines isLineEnd source.toList).take d.line.toNat, ∀ c ∈ l', isLineBreak c = false) →
    (Report.ofDiagnostic (lines source.toList) d).range = ⟨d.line - 1, columnStart d, l.length⟩

theorem isPlace_of_le {n m greatest : Int} (hn : 0 ≤ n) (hnm : n ≤ m) (hm : m ≤ greatest) :
    isPlace greatest n = true := by
  rw [isPlace, decide_eq_true hn, decide_eq_true (Int.le_trans hnm hm)]
  rfl

theorem columnStart_nonneg {d : Diagnostic} (hcolumn : ∀ c ∈ d.column, 1 ≤ c) : 0 ≤ columnStart d := by
  rw [columnStart]
  cases hc : d.column with
  | none => exact Int.le_refl _
  | some c =>
      have hone := hcolumn c hc
      simp only [Option.map_some, Option.getD_some]
      omega

/-- The range starts at the column, but no later than it ends. -/
theorem rangeOf_eq (lines : List (List Char)) {d : Diagnostic} (hcolumn : ∀ c ∈ d.column, 1 ≤ c) : rangeOf d lines =
    ⟨d.line - 1, min (columnStart d) (lineLength lines (d.line - 1)), lineLength lines (d.line - 1)⟩ := by
  rw [rangeOf, columnStart]
  cases hc : d.column with
  | none => rfl
  | some c =>
      have hne : c ≠ 0 := by
        have hone := hcolumn c hc
        omega
      simp only [if_neg hne, Option.map_some, Option.getD_some]

/-- An editor can represent the range of a diagnostic that is on a line of a source that is not too long. -/
theorem ofDiagnostic?_eq {source : String} {greatest : Int} {d : Diagnostic} (hline : 1 ≤ d.line)
    (hlines : d.line ≤ source.length + 1) (hcolumn : ∀ c ∈ d.column, 1 ≤ c)
    (hlength : source.length ≤ greatest) :
    Report.ofDiagnostic? greatest (lines source.toList) d = .ok (Report.ofDiagnostic (lines source.toList) d) := by
  have hstop := lineLength_le source.toList (d.line - 1)
  have hnonneg := lineLength_nonneg (lines source.toList) (d.line - 1)
  have hstart := columnStart_nonneg hcolumn
  rw [String.length_toList] at hstop
  have hline' : isPlace greatest (d.line - 1) = true := isPlace_of_le (by omega) (by omega) hlength
  have hstop' : isPlace greatest (lineLength (lines source.toList) (d.line - 1)) = true :=
    isPlace_of_le hnonneg hstop hlength
  have hstart' : isPlace greatest (min (columnStart d) (lineLength (lines source.toList) (d.line - 1))) = true :=
    isPlace_of_le (by omega) (Int.le_trans (Int.min_le_right _ _) hstop) hlength
  have hcheck : (rangeOf d (lines source.toList)).check greatest = .ok () := by
    rw [rangeOf_eq _ hcolumn, Range.check]
    simp only [hline', hstart', hstop', Bool.not_true, Bool.false_eq_true, if_false]
  simp only [Report.ofDiagnostic?, Report.ofDiagnostic, hcheck, Except.map]

/-- **How an editor marks what is at a place of a source.** -/
theorem exists_marks_of_isIn {source : String} {d : Diagnostic} {p : Position} (hp : p.IsIn source.toList)
    (hline : d.line = p.line) (hcolumn : ∀ c ∈ d.column, c = p.column) : ∃ l, Marks source d l := by
  obtain ⟨l, hl, hone, hone', hend⟩ := hp.exists_line
  have hindex : (d.line - 1).toNat = p.line - 1 := by omega
  have hcolumn' : ∀ c ∈ d.column, 1 ≤ c ∧ c ≤ l.length + 1 := by
    intro c hc
    have hc' := hcolumn c hc
    omega
  have hrange := rangeOf_eq (lines source.toList) fun c hc => (hcolumn' c hc).1
  refine ⟨l, ⟨by omega, by rwa [hindex]⟩, hcolumn', ⟨_, _, hrange, ?_⟩, ?_, fun hbreak => ?_⟩
  · have hstart := columnStart_nonneg fun c hc => (hcolumn' c hc).1
    have hstop := lineLength_le source.toList (d.line - 1)
    have hnonneg := lineLength_nonneg (lines source.toList) (d.line - 1)
    rw [String.length_toList] at hstop
    omega
  · refine fun greatest => ofDiagnostic?_eq (by omega) ?_ fun c hc => (hcolumn' c hc).1
    have hlt := (List.getElem?_eq_some_iff.1 hl).1
    have hle := length_cutLines_le isLineEnd source.toList
    rw [String.length_toList] at hle
    omega
  · have htake : d.line.toNat = p.line - 1 + 1 := by omega
    rw [htake] at hbreak
    have hlength := lineLength_eq hl hbreak
    have hline' : ((p.line - 1 : Nat) : Int) = d.line - 1 := by omega
    rw [hline'] at hlength
    rw [Report.ofDiagnostic, hrange, hlength]
    have hstart : columnStart d ≤ l.length := by
      rw [columnStart]
      cases hc : d.column with
      | none => exact Int.natCast_nonneg _
      | some c =>
          have hc' := hcolumn' c hc
          simp only [Option.map_some, Option.getD_some]
          omega
    rw [Int.min_eq_left hstart]

end Editor

namespace Session

open Editor

/-- **How an editor marks a diagnostic of a session.**  It is on a line of the source, which its tokens count as
well if there are any. -/
theorem exists_marks {s : Session} {source : String} {report : Report}
    (h : (s.run source).result = .ok report) {d : Diagnostic} (hd : d ∈ report.diagnostics) :
    ∃ l, Marks source d l ∧
      ∀ ts, lex source = .ok ts → (ts.lines source.toList)[(d.line - 1).toNat]? = some l := by
  obtain ⟨p, hp, hline, hcolumn⟩ := exists_place h hd
  obtain ⟨l, hl⟩ := exists_marks_of_isIn hp hline hcolumn
  refine ⟨l, hl, fun ts hlex => ?_⟩
  rw [lines_eq_cutLines hlex]
  exact hl.line.2

theorem exists_marks_of_run : ∃ report d, ((start .usual).run "x\r\n y$").result = .ok report ∧
    d ∈ report.diagnostics ∧ ∃ l, Marks "x\r\n y$" d l ∧
      ∀ ts, lex "x\r\n y$" = .ok ts → (ts.lines "x\r\n y$".toList)[(d.line - 1).toNat]? = some l := by
  have hlex : lex "x\r\n y$" = .error ⟨.unexpected '$', ⟨5, 2, 3⟩⟩ := by
    set_option maxRecDepth 100000 in cbv
  have hrun : ((start .usual).run "x\r\n y$").result = .ok ⟨[], [.ofLex ⟨.unexpected '$', ⟨5, 2, 3⟩⟩]⟩ := by
    rw [run_of_lex_error hlex]
  have hmem : Diagnostic.ofLex ⟨.unexpected '$', ⟨5, 2, 3⟩⟩ ∈
      [Diagnostic.ofLex ⟨.unexpected '$', ⟨5, 2, 3⟩⟩] := List.mem_singleton.2 rfl
  exact ⟨_, _, hrun, hmem, exists_marks hrun hmem⟩

/-- A form feed ends no line of a source.  In a line that starts with one, an editor marks nothing, instead of the
rest of the line from the second character on. -/
theorem range_of_formFeed : ∃ report d, ((start .usual).run "\x0c$").result = .ok report ∧
    d ∈ report.diagnostics ∧ cutLines isLineEnd "\x0c$".toList = [['\x0c', '$']] ∧
    (⟨d.line - 1, columnStart d, 2⟩ : Range) = ⟨0, 1, 2⟩ ∧
    (Report.ofDiagnostic (lines "\x0c$".toList) d).range = ⟨0, 0, 0⟩ := by
  have hlex : lex "\x0c$" = .error ⟨.unexpected '$', ⟨1, 1, 2⟩⟩ := by
    set_option maxRecDepth 100000 in cbv
  have hrun : ((start .usual).run "\x0c$").result = .ok ⟨[], [.ofLex ⟨.unexpected '$', ⟨1, 1, 2⟩⟩]⟩ := by
    rw [run_of_lex_error hlex]
  exact ⟨_, _, hrun, List.mem_singleton.2 rfl, by decide +kernel, rfl, by decide +kernel⟩

end Session

end MatrixCalc
