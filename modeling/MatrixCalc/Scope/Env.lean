/-
**Environments.**

An environment is a chain of bindings: the innermost, which can be changed, and the ones around it.  A
name has the value of the first bindings of the chain that bind it.  A statement is evaluated with new
bindings in front of the chain, which are merged into the ones behind them if it succeeds.

Main definitions:

* `MatrixCalc.Env` — environments;
* `MatrixCalc.Env.get?` — the value of a name;
* `MatrixCalc.Env.set` — a name bound in the innermost bindings;
* `MatrixCalc.Env.push`, `MatrixCalc.Env.commit` — new bindings in front, and their merging;
* `MatrixCalc.Env.names` — all names that have a value, in increasing order.
-/

import MatrixCalc.Bindings

set_option autoImplicit false

namespace MatrixCalc

/-- A chain of bindings. -/
structure Env (β : Type) where
  /-- The innermost bindings. -/
  inner : Bindings β
  /-- The bindings around them, from the inside out. -/
  outer : List (Bindings β)

namespace Env

variable {β : Type}

/-- An environment in which no name has a value. -/
def empty : Env β := ⟨.empty, []⟩

instance : Inhabited (Env β) := ⟨empty⟩

/-- The bindings of the chain, from the inside out. -/
def chain (e : Env β) : List (Bindings β) := e.inner :: e.outer

/-- The value of a name. -/
def get? (e : Env β) (name : String) : Option β := e.chain.findSome? fun b => b.get? name

theorem get?_eq (e : Env β) (name : String) :
    e.get? name = (e.inner.get? name).or (e.outer.findSome? fun b => b.get? name) := by
  simp only [get?, chain, List.findSome?_cons]
  cases e.inner.get? name <;> rfl

@[simp] theorem get?_empty (name : String) : (empty : Env β).get? name = none := rfl

/-- Whether a name has a value. -/
def contains (e : Env β) (name : String) : Bool := e.chain.any fun b => b.contains name

/-- The environment with a name bound in the innermost bindings. -/
def set (e : Env β) (name : String) (v : β) : Env β := { e with inner := e.inner.set name v }

@[simp] theorem outer_set (e : Env β) (name : String) (v : β) : (e.set name v).outer = e.outer := rfl

/-- Binding a name gives it the value and leaves the others alone. -/
@[simp] theorem get?_set (e : Env β) (name n : String) (v : β) :
    (e.set name v).get? n = if n = name then some v else e.get? n := by
  simp only [get?_eq, set, Bindings.get?_set]
  split <;> rfl

/-- The environment with new bindings in front. -/
def push (e : Env β) : Env β := ⟨.empty, e.chain⟩

/-- New bindings do not change any value. -/
@[simp] theorem get?_push (e : Env β) (name : String) : e.push.get? name = e.get? name := rfl

/-- The environment with the innermost bindings of `child` merged into its own. -/
def commit (e child : Env β) : Env β := { e with inner := e.inner.setAll child.inner }

@[simp] theorem outer_commit (e child : Env β) : (e.commit child).outer = e.outer := rfl

/-- Merging bindings that stand in front of an environment gives every name the value it has with them
in front. -/
theorem get?_commit (e child : Env β) (h : child.outer = e.chain) (name : String) :
    (e.commit child).get? name = child.get? name := by
  simp only [get?_eq, commit, Bindings.get?_setAll, h, chain, List.findSome?_cons]
  cases child.inner.get? name with
  | some v => rfl
  | none => cases e.inner.get? name <;> rfl

/-- The names in increasing order, each once. -/
def sortNames (names : List String) : List String :=
  names.eraseDups.mergeSort fun a b => decide (a ≤ b)

/-- All names that have a value, in increasing order. -/
def names (e : Env β) : List String := sortNames (e.chain.flatMap Bindings.names)

/-- All names that have a value, in increasing order, with their values. -/
def toList (e : Env β) : List (String × β) :=
  e.names.filterMap fun name => (e.get? name).map fun v => (name, v)

end Env

end MatrixCalc
