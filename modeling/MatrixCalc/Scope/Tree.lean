/-
**Trees of scopes.**

A tree of scopes is grown from a root: a scope can be given a child and a copy, names can be bound in
it, and the bindings of a child can be merged into its parent.  Every scope but the root knows its
parent, which was there before it; reading a name goes up from a scope to the root.

Main definitions:

* `MatrixCalc.ScopeTree` — the trees;
* `MatrixCalc.ScopeTree.chain`, `MatrixCalc.ScopeTree.env?` — the environment of a scope;
* `MatrixCalc.ScopeTree.push`, `MatrixCalc.ScopeTree.copy` — another scope;
* `MatrixCalc.ScopeTree.set`, `MatrixCalc.ScopeTree.commit` — binding and merging;
* `MatrixCalc.Bindings.dump` — bindings in a data dump.
-/

import MatrixCalc.Scope.Env
import MatrixCalc.Value.Display

set_option autoImplicit false

namespace MatrixCalc

/-- A scope: its own bindings, and its parent unless it is a root. -/
structure Scope (β : Type) where
  bindings : Bindings β
  /-- The number of the parent. -/
  parent : Option Nat

/-- Scopes, numbered in the order in which they came up. -/
structure ScopeTree (β : Type) where
  scopes : List (Scope β)
  /-- A parent was there before its children. -/
  parent_lt : ∀ i p, (scopes[i]?).bind Scope.parent = some p → p < i

/-- Why a scope cannot be used. -/
inductive ScopeError where
  /-- There is no such scope. -/
  | noScope
  /-- The scope to be merged is no child of the other. -/
  | notChild
  deriving DecidableEq, Repr

/-- What is said about a scope that cannot be used. -/
def ScopeError.message : ScopeError → String
  | noScope => "no such scope"
  | notChild => "can only commit a direct child scope"

namespace ScopeTree

variable {β : Type}

/-- A tree with nothing but a root, in which no name is bound. -/
def root : ScopeTree β where
  scopes := [⟨.empty, none⟩]
  parent_lt i p h := by
    cases i with
    | zero => simp at h
    | succ i => simp at h

instance : Inhabited (ScopeTree β) := ⟨root⟩

/-- The number of scopes. -/
def size (t : ScopeTree β) : Nat := t.scopes.length

/-- The bindings of a scope and of those above it. -/
def chain (t : ScopeTree β) (i : Nat) : List (Bindings β) :=
  match hs : t.scopes[i]? with
  | none => []
  | some s => s.bindings :: match hp : s.parent with
    | none => []
    | some p =>
        have : p < i := t.parent_lt i p (by simp [hs, hp])
        t.chain p

/-- The environment of a scope. -/
def env? (t : ScopeTree β) (i : Nat) : Except ScopeError (Env β) :=
  match t.chain i with
  | [] => .error .noScope
  | b :: bs => .ok ⟨b, bs⟩

/-! ### Growing -/

/-- A scope whose parent is there can be added. -/
theorem parent_lt_append (t : ScopeTree β) (s : Scope β) (h : ∀ p, s.parent = some p → p < t.size)
    (i p : Nat) (hp : ((t.scopes ++ [s])[i]?).bind Scope.parent = some p) : p < i := by
  rw [List.getElem?_append] at hp
  split at hp
  · exact t.parent_lt i p hp
  · next hi =>
      cases hk : i - t.scopes.length with
      | zero =>
          simp only [hk, List.getElem?_cons_zero, Option.bind_some] at hp
          have := h p hp
          simp only [size] at this
          omega
      | succ k => simp [hk] at hp

/-- The tree with a new scope below the scope `i`; its number is the former number of scopes. -/
def push (t : ScopeTree β) (i : Nat) : Except ScopeError (ScopeTree β) :=
  if h : i < t.size then
    .ok ⟨t.scopes ++ [⟨.empty, some i⟩],
      t.parent_lt_append _ fun p hp => by simp only [Option.some.injEq] at hp; omega⟩
  else .error .noScope

/-- The tree with a copy of the scope `i`; its number is the former number of scopes. -/
def copy (t : ScopeTree β) (i : Nat) : Except ScopeError (ScopeTree β) :=
  match hs : t.scopes[i]? with
  | none => .error .noScope
  | some s => .ok ⟨t.scopes ++ [s], t.parent_lt_append s fun p hp => by
      have h₁ := t.parent_lt i p (by simp [hs, hp])
      have h₂ := (List.getElem?_eq_some_iff.1 hs).1
      simp only [size]
      omega⟩

/-! ### Changing bindings -/

/-- Changing bindings does not change parents. -/
theorem bind_parent_modify (scopes : List (Scope β)) (i k : Nat) (f : Bindings β → Bindings β) :
    ((scopes.modify i fun s => { s with bindings := f s.bindings })[k]?).bind Scope.parent =
      (scopes[k]?).bind Scope.parent := by
  rw [List.getElem?_modify]
  cases scopes[k]? with
  | none => rfl
  | some s =>
      simp only [Option.map_eq_map, Option.map_some, Option.bind_some]
      split <;> rfl

/-- The tree with the bindings of the scope `i` changed. -/
def modify (t : ScopeTree β) (i : Nat) (f : Bindings β → Bindings β) : ScopeTree β :=
  ⟨t.scopes.modify i fun s => { s with bindings := f s.bindings }, fun k p h =>
    t.parent_lt k p (bind_parent_modify t.scopes i k f ▸ h)⟩

/-- The tree with a name bound in the scope `i`. -/
def set (t : ScopeTree β) (i : Nat) (name : String) (v : β) : Except ScopeError (ScopeTree β) :=
  if i < t.size then .ok (t.modify i fun b => b.set name v) else .error .noScope

/-- The tree with the bindings of the scope `child` merged into those of its parent `i`, and none left
in the child. -/
def commit (t : ScopeTree β) (i child : Nat) : Except ScopeError (ScopeTree β) :=
  match t.scopes[child]? with
  | none => .error .noScope
  | some s =>
      if s.parent = some i then
        .ok ((t.modify i fun b => b.setAll s.bindings).modify child fun _ => .empty)
      else .error .notChild

end ScopeTree

/-- Bindings in a data dump. -/
def Bindings.dump (b : Bindings (Value Float)) : String :=
  "Env\x7b" ++ String.intercalate ", " (b.entries.map fun e => e.1 ++ ": " ++ e.2.dump) ++ "\x7d"

end MatrixCalc
