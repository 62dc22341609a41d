/-
**The sign of a permutation vector counts its inversions.**

Two entries are inverted if the greater one stands in front.  The sign of a permutation is plus if their number is
even, and minus else.  So it is multiplicative, and turns if two entries are exchanged.

The loop that follows the indices has no bound of its own: it goes on until it comes to a place that has been visited.
It ends for every vector of indices, a permutation or not, because each move visits a place that has not been visited,
and then there is one less of these.

Main definitions:

* `MatrixCalc.Permutation.inversions` — the number of inversions;
* `MatrixCalc.Permutation.Follows`, `MatrixCalc.Permutation.Counts` — the loops that find the sign, without a bound.

Main results:

* `MatrixCalc.Permutation.follows_iff` — **the loop that follows the indices ends**, and does what a walk does;
* `MatrixCalc.Permutation.counts_iff` — the loop over all places ends with the sign;
* `MatrixCalc.Permutation.sign_perm` — the sign of a permutation is the parity of its inversions;
* `MatrixCalc.Permutation.sign_inversions` — **the sign counts inversions**.
-/

import Mathlib
import MatrixCalc.Proofs.Dense.CycleParity

set_option autoImplicit false

namespace MatrixCalc

namespace Permutation

variable {n : Nat} {indices : Vector (Fin n) n} {visited visited' : Vector Bool n} {j start : Fin n} {length : Nat}

/-! ### Loops without a bound -/

/-- The loop that follows the indices from the place `j`, and its number of moves.  Each move visits a place; the loop
ends in front of one that has been visited. -/
inductive Follows (indices : Vector (Fin n) n) : Vector Bool n → Fin n → Nat → Vector Bool n → Prop where
  | stop {visited : Vector Bool n} {j : Fin n} (h : visited.get j = true) : Follows indices visited j 0 visited
  | move {visited visited' : Vector Bool n} {j : Fin n} {length : Nat} (h : visited.get j = false)
      (hrest : Follows indices (visited.set j true j.isLt) (indices.get j) length visited') :
      Follows indices visited j (length + 1) visited'

/-- The loop over places from which the indices are followed, unless they have been visited.  It keeps whether the
sign has been turned an odd number of times, and the places that have been visited. -/
inductive Counts (indices : Vector (Fin n) n) :
    List (Fin n) → Bool × Vector Bool n → Bool × Vector Bool n → Prop where
  | done (s : Bool × Vector Bool n) : Counts indices [] s s
  | seen {start : Fin n} {starts : List (Fin n)} {s s' : Bool × Vector Bool n} (h : s.2.get start = true)
      (hrest : Counts indices starts s s') : Counts indices (start :: starts) s s'
  | round {start : Fin n} {starts : List (Fin n)} {s s' : Bool × Vector Bool n} {length : Nat}
      {visited : Vector Bool n} (h : s.2.get start = false) (hround : Follows indices s.2 start length visited)
      (hrest : Counts indices starts (s.1 != (length % 2 == 0), visited) s') : Counts indices (start :: starts) s s'

/-- The number of places that have not been visited. -/
def unvisited (visited : Vector Bool n) : Nat := visited.count false

theorem unvisited_le (visited : Vector Bool n) : unvisited visited ≤ n := Vector.count_le_size

/-- **Each move leaves one place less** that has not been visited. -/
theorem unvisited_set (h : visited.get j = false) : unvisited (visited.set j true j.isLt) + 1 = unvisited visited := by
  have hj : visited[j.val] = false := h
  have hpos : 0 < visited.count false := Vector.count_pos_iff.2 (hj ▸ Vector.getElem_mem j.isLt)
  simp only [unvisited, Vector.count_set, hj, beq_self_eq_true, if_true, Bool.true_beq, Bool.false_eq_true, if_false]
  omega

/-- A walk that may go through all places not visited ends as the loop does. -/
theorem follows_walk {fuel : Nat} (h : unvisited visited ≤ fuel) :
    Follows indices visited j (walk indices fuel visited j).1 (walk indices fuel visited j).2 := by
  induction fuel generalizing visited j with
  | zero =>
      cases hj : visited.get j with
      | true => exact .stop hj
      | false =>
          have hmove := unvisited_set hj
          omega
  | succ fuel ih =>
      cases hj : visited.get j with
      | true =>
          rw [walk_of_true hj]
          exact .stop hj
      | false =>
          have hmove := unvisited_set hj
          rw [walk_of_false hj]
          exact .move hj (ih (by omega))

/-- The loop has one way to go on only. -/
theorem Follows.unique {length' : Nat} {visited'' : Vector Bool n} (h : Follows indices visited j length visited')
    (h' : Follows indices visited j length' visited'') : length = length' ∧ visited' = visited'' := by
  induction h generalizing length' with
  | stop hj =>
      cases h' with
      | stop _ => exact ⟨rfl, rfl⟩
      | move hj' _ => rw [hj] at hj'; cases hj'
  | move hj _ ih =>
      cases h' with
      | stop hj' => rw [hj] at hj'; cases hj'
      | move _ hrest => exact (ih hrest).imp_left (congrArg (· + 1))

/-- **The loop that follows the indices ends**, and does what a walk does. -/
theorem follows_iff : Follows indices visited j length visited' ↔ walk indices n visited j = (length, visited') := by
  have hwalk : Follows indices visited j (walk indices n visited j).1 (walk indices n visited j).2 :=
    follows_walk (unvisited_le visited)
  constructor
  · intro h
    obtain ⟨hlength, hvisited⟩ := h.unique hwalk
    rw [hlength, hvisited]
  · intro h
    rwa [h] at hwalk

/-- **The loop over places ends**, and does what rounds from them do. -/
theorem counts_iff {starts : List (Fin n)} {s s' : Bool × Vector Bool n} :
    Counts indices starts s s' ↔ s' = starts.foldl (Permutation.round indices) s := by
  induction starts generalizing s with
  | nil =>
      constructor
      · intro h
        cases h
        rfl
      · rintro rfl
        exact .done _
  | cons start starts ih =>
      rw [List.foldl_cons, ← ih]
      cases hstart : s.2.get start with
      | true =>
          rw [round_of_true hstart]
          constructor
          · intro h
            cases h with
            | seen _ hrest => exact hrest
            | round h _ _ => rw [hstart] at h; cases h
          · exact .seen hstart
      | false =>
          rw [round_of_false hstart]
          constructor
          · intro h
            cases h with
            | seen h _ => rw [hstart] at h; cases h
            | round _ hwalk hrest =>
                rw [follows_iff.1 hwalk]
                exact hrest
          · exact .round hstart (follows_iff.2 rfl)

/-! ### Lists of indices -/

/-- A number stands for an index if it is one, or a negative one that counts from the end. -/
theorem exists_index? {i : Int} (h : -(n : Int) ≤ i ∧ i < n) :
    ∃ k : Fin n, index? n i = some k ∧ (k : Int) = if i < 0 then i + n else i := by
  have hk : 0 ≤ (if i < 0 then i + n else i) ∧ (if i < 0 then i + n else i).toNat < n := by
    split <;> omega
  exact ⟨⟨_, hk.2⟩, dif_pos hk, Int.toNat_of_nonneg hk.1⟩

/-- A list of numbers that stand for indices is a vector of indices. -/
theorem exists_ofInts? {is : List Int} (h : ∀ i ∈ is, -(is.length : Int) ≤ i ∧ i < is.length) :
    ∃ indices, ofInts? is = some indices ∧
      ∀ k, (indices.get k : Int) = if is.get k < 0 then is.get k + is.length else is.get k := by
  choose index hindex hvalue using fun k => exists_index? (h (is.get k) (List.get_mem is k))
  have hall (k : Fin is.length) : (Vector.ofFn fun k => index? is.length (is.get k))[k].isSome = true := by
    simp only [Fin.getElem_fin, Vector.getElem_ofFn, Fin.eta, hindex, Option.isSome_some]
  refine ⟨_, dif_pos hall, fun k => ?_⟩
  rw [← hvalue k]
  congr 2
  show (Vector.ofFn _)[k.val] = _
  simp only [Vector.getElem_ofFn, Fin.getElem_fin, Fin.eta, hindex, Option.get_some]

/-! ### Inversions -/

/-- The number of pairs of places of which the one in front has the greater entry. -/
def inversions (indices : Vector (Fin n) n) : Nat :=
  (Finset.univ.filter fun p : Fin n × Fin n => p.1 < p.2 ∧ indices.get p.2 < indices.get p.1).card

/-- **The sign of a permutation is the parity of its inversions.** -/
theorem sign_perm {σ : Equiv.Perm (Fin n)} (hσ : indices.get = σ) :
    Equiv.Perm.sign σ = (-1) ^ inversions indices := by
  have hpair (i j : Fin n) : (if i < j then if σ i < σ j then 1 else (-1 : ℤˣ) else 1) =
      if i < j ∧ σ j < σ i then -1 else 1 := by
    by_cases hij : i < j
    · have hne : σ i ≠ σ j := fun heq => hij.ne (σ.injective heq)
      by_cases hσij : σ i < σ j
      · rw [if_pos hij, if_pos hσij, if_neg fun h => hσij.asymm h.2]
      · rw [if_pos hij, if_neg hσij, if_pos ⟨hij, lt_of_le_of_ne (not_lt.1 hσij) hne.symm⟩]
    · rw [if_neg hij, if_neg fun h => hij h.1]
  calc Equiv.Perm.sign σ
      = ∏ i, ∏ j ∈ Finset.Ioi i, (if σ i < σ j then 1 else -1) := σ.sign_eq_prod_prod_Ioi
    _ = ∏ i, ∏ j, (if i < j ∧ σ j < σ i then -1 else 1) := by
        refine Finset.prod_congr rfl fun i _ => ?_
        rw [← Finset.filter_lt_eq_Ioi, Finset.prod_filter]
        exact Finset.prod_congr rfl fun j _ => hpair i j
    _ = ∏ p : Fin n × Fin n, (if p.1 < p.2 ∧ σ p.2 < σ p.1 then -1 else 1) :=
        (Fintype.prod_prod_type' fun i j => if i < j ∧ σ j < σ i then -1 else 1).symm
    _ = (-1) ^ inversions indices := by
        rw [Finset.prod_ite, Finset.prod_const, Finset.prod_const_one, mul_one, inversions, hσ]

/-! ### Composition and exchange -/

variable {p q : Vector (Fin n) n}

/-- A vector of indices is that of a permutation: no index stands in two places. -/
def IsPermutation (p : Vector (Fin n) n) : Prop := Function.Injective p.get

instance : DecidablePred fun p : Vector (Fin n) n => IsPermutation p := fun p =>
  inferInstanceAs (Decidable (Function.Injective p.get))

/-- The indices that are found by following first `q` and then `p`. -/
def compose (p q : Vector (Fin n) n) : Vector (Fin n) n := Vector.ofFn fun i => p.get (q.get i)

theorem get_compose (p q : Vector (Fin n) n) : (compose p q).get = p.get ∘ q.get := by
  funext i
  show (Vector.ofFn _)[i.val] = _
  rw [Vector.getElem_ofFn]
  rfl

theorem get_swap (p : Vector (Fin n) n) (i j : Fin n) : (p.swap i j i.isLt j.isLt).get = p.get ∘ Equiv.swap i j := by
  funext k
  show (p.swap i j i.isLt j.isLt)[k.val] = p.get (Equiv.swap i j k)
  simp only [Vector.getElem_swap, Equiv.swap_apply_def, Fin.val_inj]
  split
  · rfl
  · split <;> rfl

theorem IsPermutation.exists_perm (hp : IsPermutation p) : ∃ σ : Equiv.Perm (Fin n), p.get = σ :=
  ⟨Equiv.ofBijective p.get (Finite.injective_iff_bijective.1 hp), rfl⟩

/-- Rounds of even length turn the sign an odd number of times if the number of inversions is odd. -/
theorem IsPermutation.isOdd_iff (hp : IsPermutation p) : isOdd p = true ↔ Odd (inversions p) := by
  obtain ⟨σ, hσ⟩ := hp.exists_perm
  have hsign := (sign_eq hσ).symm.trans (sign_perm hσ)
  rcases Nat.even_or_odd (inversions p) with heven | hodd
  · rw [heven.neg_one_pow] at hsign
    cases hp : isOdd p with
    | false => simp [heven]
    | true => rw [hp] at hsign; exact absurd hsign (by decide)
  · rw [hodd.neg_one_pow] at hsign
    cases hp : isOdd p with
    | false => rw [hp] at hsign; exact absurd hsign (by decide)
    | true => simp [hodd]

theorem IsPermutation.not_isOdd_iff (hp : IsPermutation p) : ¬ isOdd p = true ↔ Even (inversions p) := by
  rw [hp.isOdd_iff, Nat.not_odd_iff_even]

/-- The sign of a composition. -/
theorem IsPermutation.isOdd_compose (hp : IsPermutation p) (hq : IsPermutation q) :
    isOdd (compose p q) = (isOdd p != isOdd q) := by
  obtain ⟨σ, hσ⟩ := hp.exists_perm
  obtain ⟨τ, hτ⟩ := hq.exists_perm
  have hcompose : (compose p q).get = (σ * τ : Equiv.Perm (Fin n)) := by rw [get_compose, hσ, hτ]; rfl
  have hsign := Equiv.Perm.sign_mul σ τ
  rw [sign_eq hcompose, sign_eq hσ, sign_eq hτ] at hsign
  revert hsign
  cases isOdd (compose p q) <;> cases isOdd p <;> cases isOdd q <;> decide

/-- Exchanging two entries turns the sign. -/
theorem IsPermutation.isOdd_swap (hp : IsPermutation p) {i j : Fin n} (hij : i ≠ j) :
    isOdd (p.swap i j i.isLt j.isLt) = !isOdd p := by
  obtain ⟨σ, hσ⟩ := hp.exists_perm
  have hswap : (p.swap i j i.isLt j.isLt).get = (σ * Equiv.swap i j : Equiv.Perm (Fin n)) := by rw [get_swap, hσ]; rfl
  have hsign := Equiv.Perm.sign_mul σ (Equiv.swap i j)
  rw [sign_eq hswap, sign_eq hσ, Equiv.Perm.sign_swap hij] at hsign
  revert hsign
  cases isOdd (p.swap i j i.isLt j.isLt) <;> cases isOdd p <;> decide

/-- **The sign counts inversions.**  For every list of numbers that stand for indices, the loops come to an end, with
the sign, whether the indices are those of a permutation or not.  If they are, the sign is minus one to the power of
the number of inversions; that of a composition is the product of the signs, and exchanging two entries turns it. -/
theorem sign_inversions :
    (∀ is : List Int, (∀ i ∈ is, -(is.length : Int) ≤ i ∧ i < is.length) →
      ∃ p : Vector (Fin is.length) is.length, ofInts? is = some p ∧
        (∀ k, (p.get k : Int) = if is.get k < 0 then is.get k + is.length else is.get k) ∧
        ∃ s, (∀ s', Counts p (List.finRange _) (false, Vector.replicate _ false) s' ↔ s' = s) ∧
          sign Float p = if s.1 then -1 else 1) ∧
    (∀ (n : Nat) (p : Vector (Fin n) n), IsPermutation p →
      sign ℤ p = (-1) ^ inversions p ∧ (sign Float p = if Even (inversions p) then 1 else -1) ∧
      (∀ q, IsPermutation q → sign Float (compose p q) = sign Float p * sign Float q) ∧
      (∀ i j : Fin n, i ≠ j → sign Float (p.swap i j i.isLt j.isLt) = -sign Float p)) := by
  refine ⟨fun is his => ?_, fun n p hp => ⟨?_, ?_, fun q hq => ?_, fun i j hij => ?_⟩⟩
  · obtain ⟨p, hp, hvalue⟩ := exists_ofInts? his
    refine ⟨p, hp, hvalue, _, fun s' => counts_iff, ?_⟩
    rw [sign, isOdd, Fin.foldl_eq_foldl_finRange]
  · rw [sign]
    split
    · next hodd => rw [(hp.isOdd_iff.1 hodd).neg_one_pow]
    · next heven => rw [(hp.not_isOdd_iff.1 heven).neg_one_pow]
  · rw [sign, ← ite_not]
    exact if_congr hp.not_isOdd_iff rfl rfl
  · simp only [sign, hp.isOdd_compose hq]
    cases isOdd p <;> cases isOdd q <;> decide +kernel
  · simp only [sign, hp.isOdd_swap hij]
    cases isOdd p <;> decide +kernel

/-- Three places around a cycle, and one that stays. -/
def cycleOfThree : Vector (Fin 4) 4 := #v[1, 2, 0, 3]

theorem sign_inversions_cycleOfThree :
    ((∀ i ∈ [-2, 0, 0], -(3 : Int) ≤ i ∧ i < 3) ∧ ∃ p : Vector (Fin 3) 3, ofInts? [-2, 0, 0] = some p ∧
      ∃ s, ∀ s', Counts p (List.finRange 3) (false, Vector.replicate 3 false) s' ↔ s' = s) ∧
    (IsPermutation cycleOfThree ∧ sign ℤ cycleOfThree = (-1) ^ inversions cycleOfThree ∧
      sign Float (compose cycleOfThree cycleOfThree) = sign Float cycleOfThree * sign Float cycleOfThree ∧
      (0 : Fin 4) ≠ 3 ∧ sign Float (cycleOfThree.swap 0 3 (by decide) (by decide)) = -sign Float cycleOfThree) := by
  obtain ⟨hlists, hpermutations⟩ := sign_inversions
  have hindices : ∀ i ∈ [-2, 0, 0], -(3 : Int) ≤ i ∧ i < 3 := by decide
  have hcycle : IsPermutation cycleOfThree := by decide +kernel
  have hne : (0 : Fin 4) ≠ 3 := by decide
  obtain ⟨p, hp, -, s, hs, -⟩ := hlists [-2, 0, 0] hindices
  obtain ⟨hsign, -, hcompose, hswap⟩ := hpermutations 4 cycleOfThree hcycle
  exact ⟨⟨hindices, p, hp, s, hs⟩, hcycle, hsign, hcompose cycleOfThree hcycle, hne, hswap 0 3 hne⟩

/-- Two inversions. -/
example : inversions cycleOfThree = 2 ∧ sign Float cycleOfThree = 1 := by decide +kernel

end Permutation

end MatrixCalc
