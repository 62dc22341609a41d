/-
**Permutation vectors.**

A permutation vector says for each place which index stands there.  Its sign is found by following the
indices from each place that has not been visited: a round of even length turns the sign.  This gives
an answer for every vector of indices, a permutation or not.

Main definitions:

* `MatrixCalc.Permutation.walk` — follows the indices through places not visited before;
* `MatrixCalc.Permutation.isOdd`, `MatrixCalc.Permutation.sign` — the sign of a vector of indices;
* `MatrixCalc.Permutation.ofInts?` — a vector of indices, where negative ones count from the end;
* `MatrixCalc.Permutation.matrix` — the grid that permutes rows.
-/

import MatrixCalc.Dense.Grid

set_option autoImplicit false

namespace MatrixCalc

namespace Permutation

variable {n : Nat}

/-- Follows the indices from the place `j` through at most `fuel` places that are not visited, and
visits them.  Gives their number and all places visited then. -/
def walk (indices : Vector (Fin n) n) : Nat → Vector Bool n → Fin n → Nat × Vector Bool n
  | 0, visited, _ => (0, visited)
  | fuel + 1, visited, j =>
      if visited[j] then (0, visited)
      else
        let r := walk indices fuel (visited.set j true) indices[j]
        (r.1 + 1, r.2)

/-- Whether rounds of even length turn the sign an odd number of times, and all places visited, after
the round from the place `start`. -/
def round (indices : Vector (Fin n) n) (s : Bool × Vector Bool n) (start : Fin n) :
    Bool × Vector Bool n :=
  if s.2.get start then s
  else
    let r := walk indices n s.2 start
    (s.1 != (r.1 % 2 == 0), r.2)

/-- Whether a vector of indices has the sign minus. -/
def isOdd (indices : Vector (Fin n) n) : Bool :=
  (Fin.foldl n (round indices) (false, Vector.replicate n false)).1

/-- The sign of a vector of indices. -/
def sign (α : Type) [One α] [Neg α] (indices : Vector (Fin n) n) : α :=
  if isOdd indices then -1 else 1

/-- The index that `i` stands for among `n`: a negative one counts from the end. -/
def index? (n : Nat) (i : Int) : Option (Fin n) :=
  let k := if i < 0 then i + n else i
  if h : 0 ≤ k ∧ k.toNat < n then some ⟨k.toNat, h.2⟩ else none

/-- The vector of the indices that the numbers stand for, if there is one for each. -/
def ofInts? (is : List Int) : Option (Vector (Fin is.length) is.length) :=
  let found : Vector (Option (Fin is.length)) is.length :=
    Vector.ofFn fun k => index? is.length (is.get k)
  if h : ∀ k : Fin is.length, found[k].isSome = true then
    some (Vector.ofFn fun k => found[k].get (h k))
  else none

/-- The grid with a one in each row at the column that the vector says. -/
def matrix (α : Type) [Zero α] [One α] (indices : Vector (Fin n) n) : Grid α n n :=
  .ofFn fun i j => if j = indices.get i then 1 else 0

@[simp] theorem cell_matrix {α : Type} [Zero α] [One α] (indices : Vector (Fin n) n) (i j : Fin n) :
    (matrix α indices).cell i j = if j = indices.get i then 1 else 0 := by
  simp [matrix]

end Permutation

end MatrixCalc
