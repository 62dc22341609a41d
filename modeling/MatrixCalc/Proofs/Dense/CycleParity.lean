/-
**The sign of a permutation vector is the sign of the permutation.**

A walk follows the indices from a place until it comes to one that has been visited.  If the indices are those
of a permutation and the walk starts at a place of a cycle not visited yet, it goes once around this cycle.  So
at any time the places visited make up whole cycles, and the sign counted so far is that of the permutation that
goes around these cycles and leaves all other places alone.

Main definitions:

* `MatrixCalc.Permutation.Walked` — what a walk does, whatever the indices are;
* `MatrixCalc.Permutation.Counted` — the places visited make up cycles, whose sign has been counted.

Main results:

* `MatrixCalc.Permutation.walked` — every walk visits places not visited before, each once;
* `MatrixCalc.Permutation.Walked.cycle` — around a permutation, it visits one cycle;
* `MatrixCalc.Permutation.Counted.round` — a round counts the cycle of its start;
* `MatrixCalc.Permutation.sign_eq` — **the sign counted is the sign of the permutation**.
-/

import Mathlib
import MatrixCalc.Dense.Permutation

set_option autoImplicit false

namespace MatrixCalc

namespace Permutation

variable {n : Nat}

/-! ### Walks -/

theorem get_set (visited : Vector Bool n) (i x : Fin n) :
    (visited.set i true i.isLt).get x = (decide (x = i) || visited.get x) := by
  show (visited.set i.val true)[x.val] = _
  rw [Vector.getElem_set]
  by_cases h : x = i
  · rw [if_pos (congrArg Fin.val h.symm), decide_eq_true h, Bool.true_or]
  · have hne : i.val ≠ x.val := fun heq => h (Fin.ext heq.symm)
    rw [if_neg hne, decide_eq_false h, Bool.false_or]
    rfl

section

variable {indices : Vector (Fin n) n} {visited : Vector Bool n} {j start : Fin n} {s : Bool × Vector Bool n}

/-- A walk ends in front of a place that has been visited. -/
theorem walk_of_true {fuel : Nat} (h : visited.get j = true) : walk indices (fuel + 1) visited j = (0, visited) :=
  if_pos h

/-- A walk visits a place and goes on at the index that stands there. -/
theorem walk_of_false {fuel : Nat} (h : visited.get j = false) : walk indices (fuel + 1) visited j =
    ((walk indices fuel (visited.set j true j.isLt) (indices.get j)).1 + 1,
      (walk indices fuel (visited.set j true j.isLt) (indices.get j)).2) :=
  if_neg (Bool.eq_false_iff.1 h)

/-- There is no round from a place that has been visited. -/
theorem round_of_true (h : s.2.get start = true) : round indices s start = s := if_pos h

/-- A round from a place that has not been visited is a walk from there. -/
theorem round_of_false (h : s.2.get start = false) : round indices s start =
    (s.1 != ((walk indices n s.2 start).1 % 2 == 0), (walk indices n s.2 start).2) :=
  if_neg (Bool.eq_false_iff.1 h)

end

/-- What a walk from the place `j` does. -/
structure Walked (indices : Vector (Fin n) n) (fuel : Nat) (visited : Vector Bool n) (j : Fin n)
    (r : Nat × Vector Bool n) : Prop where
  /-- It comes to places that have not been visited before. -/
  fresh : ∀ i < r.1, visited.get (indices.get^[i] j) = false
  /-- It comes to each of them once. -/
  distinct : ∀ i < r.1, ∀ k < r.1, indices.get^[i] j = indices.get^[k] j → i = k
  /-- It visits them. -/
  visits : ∀ x, r.2.get x = true ↔ visited.get x = true ∨ ∃ i < r.1, indices.get^[i] j = x
  /-- It ends in front of a place that has been visited, unless it may go no further. -/
  ends : r.1 = fuel ∨ r.2.get (indices.get^[r.1] j) = true

namespace Walked

variable {indices : Vector (Fin n) n} {fuel : Nat} {visited : Vector Bool n} {j : Fin n} {r : Nat × Vector Bool n}

/-- A walk to no place at all. -/
theorem nowhere (h : 0 = fuel ∨ visited.get j = true) : Walked indices fuel visited j (0, visited) where
  fresh i hi := absurd hi (Nat.not_lt_zero i)
  distinct i hi := absurd hi (Nat.not_lt_zero i)
  visits x := by simp
  ends := h

/-- A place is visited, and the walk goes on at the index that stands there. -/
theorem onward (hj : visited.get j = false) (h : Walked indices fuel (visited.set j true j.isLt) (indices.get j) r) :
    Walked indices (fuel + 1) visited j (r.1 + 1, r.2) := by
  obtain ⟨hfresh, hdistinct, hvisits, hends⟩ := h
  simp only [get_set, Bool.or_eq_false_iff, decide_eq_false_iff_not] at hfresh
  have hne : ∀ i < r.1, indices.get^[i + 1] j ≠ j := fun i hi => (hfresh i hi).1
  refine ⟨?_, ?_, ?_, hends.imp_left (congrArg (· + 1))⟩
  · intro i hi
    cases i with
    | zero => exact hj
    | succ i => exact (hfresh i (Nat.lt_of_succ_lt_succ hi)).2
  · intro i hi k hk heq
    cases i with
    | zero =>
        cases k with
        | zero => rfl
        | succ k => exact absurd heq.symm (hne k (Nat.lt_of_succ_lt_succ hk))
    | succ i =>
        cases k with
        | zero => exact absurd heq (hne i (Nat.lt_of_succ_lt_succ hi))
        | succ k =>
            exact congrArg (· + 1) (hdistinct i (Nat.lt_of_succ_lt_succ hi) k (Nat.lt_of_succ_lt_succ hk) heq)
  · intro x
    rw [hvisits, get_set, Bool.or_eq_true, decide_eq_true_iff]
    constructor
    · rintro ((rfl | hx) | ⟨i, hi, rfl⟩)
      · exact .inr ⟨0, Nat.succ_pos _, rfl⟩
      · exact .inl hx
      · exact .inr ⟨i + 1, Nat.succ_lt_succ hi, rfl⟩
    · rintro (hx | ⟨i, hi, rfl⟩)
      · exact .inl (.inr hx)
      · cases i with
        | zero => exact .inl (.inl rfl)
        | succ i => exact .inr ⟨i, Nat.lt_of_succ_lt_succ hi, rfl⟩

end Walked

/-- **Every walk visits places not visited before, each once.** -/
theorem walked (indices : Vector (Fin n) n) (fuel : Nat) (visited : Vector Bool n) (j : Fin n) :
    Walked indices fuel visited j (walk indices fuel visited j) := by
  induction fuel generalizing visited j with
  | zero => exact .nowhere (.inl rfl)
  | succ fuel ih =>
      cases hj : visited.get j with
      | true =>
          rw [walk_of_true hj]
          exact .nowhere (.inr hj)
      | false =>
          rw [walk_of_false hj]
          exact .onward hj (ih _ _)

/-! ### Walks around a cycle -/

/-- Places are visited by whole cycles. -/
theorem get_eq_of_sameCycle {σ : Equiv.Perm (Fin n)} {visited : Vector Bool n}
    (hclosed : ∀ x, visited.get (σ x) = visited.get x) {x y : Fin n} (h : σ.SameCycle x y) :
    visited.get y = visited.get x := by
  obtain ⟨k, rfl⟩ := h.exists_nat_pow_eq
  clear h
  induction k with
  | zero => rfl
  | succ k ih => rw [pow_succ', Equiv.Perm.mul_apply, hclosed, ih]

namespace Walked

variable {indices : Vector (Fin n) n} {σ : Equiv.Perm (Fin n)} {visited : Vector Bool n} {start : Fin n}
  {r : Nat × Vector Bool n}

/-- A walk around a permutation comes back to where it started. -/
theorem returns (h : Walked indices n visited start r) (hσ : indices.get = σ)
    (hclosed : ∀ x, visited.get (σ x) = visited.get x) (hstart : visited.get start = false) :
    0 < r.1 ∧ σ^[r.1] start = start := by
  obtain ⟨-, hdistinct, hvisits, hends⟩ := h
  rw [hσ] at hdistinct hvisits hends
  -- a walk through as many places as there are has visited all
  have hvisited : r.2.get (σ^[r.1] start) = true := by
    rcases hends with hall | hvisited
    · have hinjective : Function.Injective fun i : Fin n => σ^[i.val] start := by
        intro i k hik
        exact Fin.ext (hdistinct i (by omega) k (by omega) hik)
      obtain ⟨i, hi⟩ := Finite.surjective_of_injective hinjective (σ^[r.1] start)
      exact (hvisits _).mpr (.inr ⟨i, by omega, hi⟩)
    · exact hvisited
  rcases (hvisits _).mp hvisited with hbefore | ⟨i, hi, heq⟩
  · -- the place in front of which it ends is in the cycle of the start
    have hcycle : σ.SameCycle start (σ^[r.1] start) := by
      rw [Equiv.Perm.iterate_eq_pow]
      exact ⟨r.1, rfl⟩
    rw [get_eq_of_sameCycle hclosed hcycle, hstart] at hbefore
    cases hbefore
  · cases i with
    | zero => exact ⟨hi, heq.symm⟩
    | succ i =>
        -- else the place before that would have been visited twice
        obtain ⟨k, hk⟩ : ∃ k, r.1 = k + 1 := ⟨r.1 - 1, by omega⟩
        rw [hk, Function.iterate_succ_apply', Function.iterate_succ_apply'] at heq
        have hsame := hdistinct i (by omega) k (by omega) (σ.injective heq)
        omega

/-- **A walk around a permutation visits one cycle.** -/
theorem cycle (h : Walked indices n visited start r) (hσ : indices.get = σ)
    (hclosed : ∀ x, visited.get (σ x) = visited.get x) (hstart : visited.get start = false) (x : Fin n) :
    (∃ i < r.1, σ^[i] start = x) ↔ σ.SameCycle start x := by
  obtain ⟨hpos, hreturn⟩ := h.returns hσ hclosed hstart
  constructor
  · rintro ⟨i, -, rfl⟩
    rw [Equiv.Perm.iterate_eq_pow]
    exact ⟨i, rfl⟩
  · intro hcycle
    obtain ⟨k, rfl⟩ := hcycle.exists_nat_pow_eq
    refine ⟨k % r.1, Nat.mod_lt k hpos, ?_⟩
    rw [← Equiv.Perm.iterate_eq_pow]
    exact Function.IsPeriodicPt.iterate_mod_apply hreturn k

/-- A cycle of even length turns the sign. -/
theorem sign_cycleOf (h : Walked indices n visited start r) (hσ : indices.get = σ)
    (hclosed : ∀ x, visited.get (σ x) = visited.get x) (hstart : visited.get start = false) :
    Equiv.Perm.sign (σ.cycleOf start) = if r.1 % 2 == 0 then -1 else 1 := by
  obtain ⟨hpos, hreturn⟩ := h.returns hσ hclosed hstart
  by_cases hfixed : σ start = start
  · -- the cycle is a place that stays
    have hone : r.1 = 1 := by
      by_contra hne
      have hsame := h.distinct 0 hpos 1 (by omega) (by rw [hσ]; exact hfixed.symm)
      cases hsame
    rw [(Equiv.Perm.cycleOf_eq_one_iff σ).mpr hfixed, hone, Equiv.Perm.sign_one]
    rfl
  · have hsupport : (σ.cycleOf start).support = (Finset.range r.1).image fun i => σ^[i] start := by
      ext x
      rw [Equiv.Perm.mem_support_cycleOf_iff' hfixed, Finset.mem_image, ← h.cycle hσ hclosed hstart]
      simp only [Finset.mem_range]
    have hcard : (σ.cycleOf start).support.card = r.1 := by
      rw [hsupport, Finset.card_image_of_injOn, Finset.card_range]
      intro i hi k hk hik
      rw [Finset.coe_range, Set.mem_Iio] at hi hk
      exact h.distinct i hi k hk (by rw [hσ]; exact hik)
    rw [(Equiv.Perm.isCycle_cycleOf σ hfixed).sign, hcard]
    rcases Nat.even_or_odd r.1 with heven | hodd
    · rw [heven.neg_one_pow, Nat.even_iff.mp heven]
      rfl
    · rw [hodd.neg_one_pow, Nat.odd_iff.mp hodd]
      rfl

end Walked

/-! ### Counting cycles -/

/-- The places visited make up cycles of the permutation, and the sign counted so far is that of these cycles. -/
structure Counted (σ : Equiv.Perm (Fin n)) (s : Bool × Vector Bool n) : Prop where
  /-- Cycles are visited as a whole. -/
  closed : ∀ x, s.2.get (σ x) = s.2.get x
  /-- The sign is that of the permutation that leaves other cycles alone. -/
  sign : ∃ τ : Equiv.Perm (Fin n), (∀ x, τ x = if s.2.get x then σ x else x) ∧
    Equiv.Perm.sign τ = if s.1 then -1 else 1

namespace Counted

variable {indices : Vector (Fin n) n} {σ : Equiv.Perm (Fin n)} {s : Bool × Vector Bool n}

/-- No place has been visited. -/
theorem start (σ : Equiv.Perm (Fin n)) : Counted σ (false, Vector.replicate n false) := by
  have hget : ∀ x : Fin n, (Vector.replicate n false).get x = false := by
    intro x
    show (Vector.replicate n false)[x.val] = false
    rw [Vector.getElem_replicate]
  refine ⟨fun x => by rw [hget, hget], 1, fun x => ?_, ?_⟩
  · rw [hget]
    rfl
  · rw [Equiv.Perm.sign_one]
    rfl

/-- **A round counts the cycle of its start**, unless that has been visited. -/
theorem round (h : Counted σ s) (hσ : indices.get = σ) (start : Fin n) :
    Counted σ (Permutation.round indices s start) ∧
      (Permutation.round indices s start).2.get start = true ∧
      ∀ x, s.2.get x = true → (Permutation.round indices s start).2.get x = true := by
  cases hstart : s.2.get start with
  | true =>
      rw [round_of_true hstart]
      exact ⟨h, hstart, fun x hx => hx⟩
  | false =>
      have hwalked := walked indices n s.2 start
      rw [round_of_false hstart]
      generalize walk indices n s.2 start = r at *
      have hsign := hwalked.sign_cycleOf hσ h.closed hstart
      have hvisits : ∀ x, r.2.get x = true ↔ s.2.get x = true ∨ σ.SameCycle start x := by
        intro x
        rw [hwalked.visits, ← hwalked.cycle hσ h.closed hstart, hσ]
      refine ⟨⟨fun x => ?_, ?_⟩, (hvisits start).mpr (.inr (Equiv.Perm.SameCycle.refl σ start)),
        fun x hx => (hvisits x).mpr (.inl hx)⟩
      · rw [Bool.eq_iff_iff, hvisits, hvisits, h.closed, Equiv.Perm.sameCycle_apply_right]
      · obtain ⟨τ, hτ, hτsign⟩ := h.sign
        refine ⟨τ * σ.cycleOf start, fun x => ?_, ?_⟩
        · rw [Equiv.Perm.mul_apply]
          by_cases hx : σ.SameCycle start x
          · -- the cycle is new, so it has been left alone before
            have hnew : s.2.get (σ x) = false := by
              rw [h.closed, get_eq_of_sameCycle h.closed hx, hstart]
            rw [hx.cycleOf_apply, hτ, hnew, (hvisits x).mpr (.inr hx)]
            rfl
          · have hsame : r.2.get x = s.2.get x := by
              rw [Bool.eq_iff_iff, hvisits]
              exact or_iff_left hx
            rw [Equiv.Perm.cycleOf_apply_of_not_sameCycle hx, hτ, hsame]
        · rw [map_mul, hτsign, hsign]
          cases s.1 <;> cases r.1 % 2 == 0 <;> rfl

/-- Rounds from all places of a list count their cycles. -/
theorem foldl_round (hσ : indices.get = σ) (starts : List (Fin n)) (h : Counted σ s) :
    Counted σ (starts.foldl (Permutation.round indices) s) ∧
      ∀ x, s.2.get x = true ∨ x ∈ starts → (starts.foldl (Permutation.round indices) s).2.get x = true := by
  induction starts generalizing s with
  | nil => exact ⟨h, fun x hx => hx.resolve_right List.not_mem_nil⟩
  | cons start starts ih =>
      obtain ⟨hround, hstart, hkeeps⟩ := h.round hσ start
      obtain ⟨hcounted, hvisited⟩ := ih hround
      refine ⟨hcounted, fun x hx => hvisited x ?_⟩
      rcases hx with hx | hx
      · exact .inl (hkeeps x hx)
      · rcases List.mem_cons.mp hx with rfl | hx
        · exact .inl hstart
        · exact .inr hx

end Counted

/-- **The sign counted is the sign of the permutation.** -/
theorem sign_eq {indices : Vector (Fin n) n} {σ : Equiv.Perm (Fin n)} (hσ : indices.get = σ) :
    Equiv.Perm.sign σ = if isOdd indices then -1 else 1 := by
  obtain ⟨⟨-, τ, hτ, hsign⟩, hvisited⟩ :=
    Counted.foldl_round hσ (List.finRange n) (Counted.start σ)
  have heq : τ = σ := by
    ext x
    rw [hτ, hvisited x (.inr (List.mem_finRange x))]
    rfl
  rw [isOdd, Fin.foldl_eq_foldl_finRange, ← hsign, heq]

end Permutation

end MatrixCalc
