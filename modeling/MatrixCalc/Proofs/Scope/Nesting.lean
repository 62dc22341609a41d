/-
**Scopes are nested maps.**

Looking for a name goes up from a scope, through parent after parent, to the first one that binds it.  So the
effect of new bindings in a scope reaches exactly as far as one comes to this scope before the name is found.
Binding a name is one such change, and merging a child into its parent is two of them.  The parent reads then what
the child read, and the child reads the same as before, through its parent now.  Nobody else reads anything new,
except a name that the child has bound and that is looked for in the parent.  In a new scope, be it a child or a
copy, names are read as in the scope that it was made from.

Main definitions:

* `MatrixCalc.ScopeTree.own`, `MatrixCalc.ScopeTree.parent?` — the bindings of a scope itself, and the scope
  around it;
* `MatrixCalc.ScopeTree.get?` — the value of a name in a scope;
* `MatrixCalc.ScopeTree.Sees` — a scope is come to on the way up before the name is found;
* `MatrixCalc.ScopeTree.Binds`, `MatrixCalc.ScopeTree.Grows`, `MatrixCalc.ScopeTree.Merges` — what binding a name, a
  new scope, and merging a child into its parent do;
* `MatrixCalc.ScopeTree.IsNested` — what scopes that are nested maps do.

Main results:

* `MatrixCalc.Env.pairwise_names`, `MatrixCalc.Env.mem_names_iff` — the names of an environment;
* `MatrixCalc.ScopeTree.get?_eq_some_iff` — the nearest scope that binds a name gives the value;
* `MatrixCalc.ScopeTree.Sees.get?_modify`, `MatrixCalc.ScopeTree.get?_modify_of_not_sees` — how far changed
  bindings reach;
* `MatrixCalc.ScopeTree.set_binds`, `MatrixCalc.ScopeTree.push_grows`, `MatrixCalc.ScopeTree.copy_grows`,
  `MatrixCalc.ScopeTree.commit_merges` — what binding, pushing, copying and merging do;
* `MatrixCalc.ScopeTree.nests` — **scopes are nested maps**.
-/

import MatrixCalc.Scope.Tree
import Mathlib.Data.String.Basic

set_option autoImplicit false

namespace MatrixCalc

/-! ### The names of an environment -/

/-- What is left once later occurrences are dropped has each element once. -/
theorem nodup_eraseDups {α : Type} [BEq α] [LawfulBEq α] (as : List α) : as.eraseDups.Nodup := by
  induction hn : as.length using Nat.strong_induction_on generalizing as with
  | _ n ih =>
      cases as with
      | nil => exact List.nodup_nil
      | cons a as =>
          have hshorter : (as.filter fun b => !b == a).length < n := by
            have hle := List.length_filter_le (fun b => !b == a) as
            simp only [List.length_cons] at hn
            omega
          rw [List.eraseDups_cons, List.nodup_cons]
          exact ⟨by simp [List.mem_eraseDups], ih _ hshorter _ rfl⟩

namespace Env

variable {β : Type} (e : Env β)

/-- **The names are in increasing order, each once.** -/
theorem pairwise_names : e.names.Pairwise (· < ·) := by
  let le (a b : String) : Bool := decide (a ≤ b)
  have hsorted : e.names.Pairwise fun a b => le a b = true := by
    refine List.pairwise_mergeSort (fun a b c hab hbc => ?_) (fun a b => ?_) _
    · simp only [le, decide_eq_true_eq] at hab hbc ⊢
      exact le_trans hab hbc
    · simpa [le] using le_total a b
  have hnodup : e.names.Nodup := (List.mergeSort_perm _ _).nodup_iff.2 (nodup_eraseDups _)
  exact hsorted.imp₂ (fun a b hle hne => lt_of_le_of_ne (by simpa [le] using hle) hne) hnodup

/-- The names are those that some bindings of the chain bind. -/
theorem mem_names_iff (name : String) : name ∈ e.names ↔ e.contains name = true := by
  simp [names, sortNames, contains, Bindings.contains, List.mem_mergeSort, List.mem_eraseDups]

/-- A name is bound if it has a value. -/
theorem contains_eq_isSome_get? (name : String) : e.contains name = (e.get? name).isSome := by
  simp only [contains, get?]
  induction e.chain with
  | nil => rfl
  | cons b bs ih =>
      rw [List.any_cons, List.findSome?_cons, ← b.isSome_get?, ih]
      cases b.get? name <;> rfl

end Env

namespace ScopeTree

variable {β : Type} (t : ScopeTree β)

/-! ### Looking for a name -/

/-- The bindings of a scope itself; there are none in a scope that is not there. -/
def own (i : Nat) : Bindings β := ((t.scopes[i]?).map Scope.bindings).getD .empty

/-- The scope around a scope, unless it is a root. -/
def parent? (i : Nat) : Option Nat := (t.scopes[i]?).bind Scope.parent

/-- The value of a name in a scope. -/
def get? (i : Nat) (name : String) : Option β := (t.env? i).toOption.bind fun e => e.get? name

/-- On the way up from the scope `i`, the scope `j` is come to before the name is found. -/
inductive Sees (name : String) : Nat → Nat → Prop where
  | here (i : Nat) : Sees name i i
  | up {i p j : Nat} (hfree : (t.own i).get? name = none) (hp : t.parent? i = some p) (h : Sees name p j) :
      Sees name i j

variable {t}

theorem parent?_lt {i p : Nat} (h : t.parent? i = some p) : p < i := t.parent_lt i p h

theorem lt_size_of_parent? {i p : Nat} (h : t.parent? i = some p) : i < t.size := by
  by_contra hi
  rw [parent?, List.getElem?_eq_none (Nat.le_of_not_lt hi)] at h
  cases h

theorem get?_eq_findSome? (i : Nat) (name : String) :
    t.get? i name = (t.chain i).findSome? fun b => b.get? name := by
  rw [get?, env?]
  cases t.chain i <;> rfl

theorem chain_of_none {i : Nat} (h : t.scopes[i]? = none) : t.chain i = [] := by
  rw [chain]
  split
  · rfl
  · next hs => simp [h] at hs

theorem chain_of_some {i : Nat} {s : Scope β} (h : t.scopes[i]? = some s) :
    t.chain i = s.bindings :: (s.parent.map t.chain).getD [] := by
  rw [chain]
  split
  · next hs => simp [h] at hs
  · next s' hs =>
      obtain rfl : s = s' := by simpa [h] using hs
      split <;> next hp => simp [hp]

/-- **A name has the value that the scope gives it, else the one that it has in the scope around.** -/
theorem get?_eq (i : Nat) (name : String) :
    t.get? i name = ((t.own i).get? name).or ((t.parent? i).bind fun p => t.get? p name) := by
  cases hs : t.scopes[i]? with
  | none => simp [get?_eq_findSome?, chain_of_none hs, own, parent?, hs]
  | some s =>
      simp only [get?_eq_findSome?, chain_of_some hs, own, parent?, hs, Option.map_some, Option.getD_some,
        Option.bind_some, List.findSome?_cons]
      cases s.bindings.get? name with
      | some v => rfl
      | none => cases s.parent <;> rfl

namespace Sees

variable {name : String} {i j k : Nat}

/-- Scopes come to on the way up were there before. -/
theorem le (h : t.Sees name i j) : j ≤ i := by
  induction h with
  | here i => exact Nat.le_refl i
  | up _ hp _ ih => exact Nat.le_of_lt (Nat.lt_of_le_of_lt ih (parent?_lt hp))

/-- Whoever comes to a scope reads what is read there. -/
theorem get?_eq (h : t.Sees name i j) : t.get? i name = t.get? j name := by
  induction h with
  | here i => rfl
  | up hfree hp _ ih => rw [ScopeTree.get?_eq, hfree, hp, Option.none_or, Option.bind_some, ih]

end Sees

/-- **The nearest scope that binds a name gives the value.** -/
theorem get?_eq_some_iff {i : Nat} {name : String} {v : β} :
    t.get? i name = some v ↔ ∃ j, t.Sees name i j ∧ (t.own j).get? name = some v := by
  constructor
  · induction i using Nat.strong_induction_on with
    | _ i ih =>
        intro h
        rw [get?_eq] at h
        cases hown : (t.own i).get? name with
        | some w =>
            rw [hown, Option.some_or] at h
            exact ⟨i, .here i, by rw [hown, h]⟩
        | none =>
            rw [hown, Option.none_or] at h
            obtain ⟨p, hp, hv⟩ := Option.bind_eq_some_iff.1 h
            obtain ⟨j, hj, hbound⟩ := ih p (parent?_lt hp) hv
            exact ⟨j, .up hown hp hj, hbound⟩
  · rintro ⟨j, hj, hbound⟩
    rw [hj.get?_eq, get?_eq, hbound, Option.some_or]

/-! ### Changing the bindings of a scope -/

@[simp] theorem parent?_modify (i k : Nat) (f : Bindings β → Bindings β) :
    (t.modify i f).parent? k = t.parent? k := bind_parent_modify t.scopes i k f

theorem own_modify (i k : Nat) (f : Bindings β → Bindings β) (hi : i < t.size) :
    (t.modify i f).own k = if k = i then f (t.own i) else t.own k := by
  simp only [own, modify, List.getElem?_modify]
  by_cases hk : i = k
  · subst hk
    simp [List.getElem?_eq_getElem (show i < t.scopes.length from hi)]
  · simp [hk, Ne.symm hk]

/-- The way up to a scope does not depend on the bindings of this scope, or of those further up. -/
theorem Sees.congr {t' : ScopeTree β} {name : String} {j k : Nat}
    (hparent : ∀ l, t'.parent? l = t.parent? l)
    (hown : ∀ l, j < l → (t'.own l).get? name = (t.own l).get? name) (h : t.Sees name k j) :
    t'.Sees name k j := by
  induction h with
  | here k => exact .here k
  | up hfree hp h ih =>
      have hlt := Nat.lt_of_le_of_lt h.le (parent?_lt hp)
      exact .up ((hown _ hlt).trans hfree) ((hparent _).trans hp) (ih hown)

theorem sees_modify_iff {name : String} {i j k : Nat} (hi : i < t.size) (f : Bindings β → Bindings β)
    (hij : i ≤ j) : (t.modify i f).Sees name k j ↔ t.Sees name k j := by
  have hown : ∀ l, j < l → ((t.modify i f).own l).get? name = (t.own l).get? name := by
    intro l hl
    rw [own_modify i l f hi, if_neg (by omega)]
  have hparent := fun l => parent?_modify (t := t) i l f
  exact ⟨Sees.congr (fun l => (hparent l).symm) fun l hl => (hown l hl).symm, Sees.congr hparent hown⟩

/-- **Changed bindings are read by nobody who does not come to their scope.** -/
theorem get?_modify_of_not_sees {name : String} {i k : Nat} (hi : i < t.size) (f : Bindings β → Bindings β)
    (h : ¬ t.Sees name k i) : (t.modify i f).get? k name = t.get? k name := by
  induction k using Nat.strong_induction_on with
  | _ k ih =>
      have hne : k ≠ i := by
        rintro rfl
        exact h (.here k)
      rw [get?_eq, get?_eq, own_modify i k f hi, if_neg hne, parent?_modify]
      cases hown : (t.own k).get? name with
      | some v => rw [Option.some_or, Option.some_or]
      | none =>
          cases hp : t.parent? k with
          | none => rfl
          | some p =>
              have hparent := ih p (parent?_lt hp) fun hsees => h (.up hown hp hsees)
              rw [Option.bind_some, Option.bind_some, hparent]

/-- **Changed bindings are read by whoever comes to their scope.** -/
theorem Sees.get?_modify {name : String} {i k : Nat} (hi : i < t.size) (f : Bindings β → Bindings β)
    (h : t.Sees name k i) : (t.modify i f).get? k name =
      ((f (t.own i)).get? name).or ((t.parent? i).bind fun p => t.get? p name) := by
  rw [((sees_modify_iff hi f (Nat.le_refl i)).2 h).get?_eq, ScopeTree.get?_eq, own_modify i i f hi,
    if_pos rfl, parent?_modify]
  cases hp : t.parent? i with
  | none => rfl
  | some p =>
      have habove : ¬ t.Sees name p i := fun hsees => Nat.not_le_of_lt (parent?_lt hp) hsees.le
      rw [Option.bind_some, Option.bind_some, get?_modify_of_not_sees hi f habove]

/-- What binding a name in the scope `i` does. -/
structure Binds (t t' : ScopeTree β) (i : Nat) (name : String) (v : β) : Prop where
  /-- No scope has another parent. -/
  parents : ∀ k, t'.parent? k = t.parent? k
  /-- Whoever comes to the scope when it looks for the name reads the value. -/
  seen : ∀ k, t.Sees name k i → t'.get? k name = some v
  /-- Nothing else is read anew. -/
  unseen : ∀ k n, ¬ (n = name ∧ t.Sees name k i) → t'.get? k n = t.get? k n

/-- **What binding a name does.** -/
theorem set_binds {i : Nat} (hi : i < t.size) (name : String) (v : β) :
    ∃ t', t.set i name v = .ok t' ∧ t.Binds t' i name v := by
  refine ⟨_, if_pos hi, fun k => parent?_modify i k _, fun k hsees => ?_, fun k n hn => ?_⟩
  · rw [hsees.get?_modify hi, Bindings.get?_set, if_pos rfl, Option.some_or]
  · by_cases hsees : t.Sees n k i
    · have hne : n ≠ name := fun h => hn ⟨h, h ▸ hsees⟩
      rw [hsees.get?_modify hi, Bindings.get?_set, if_neg hne, ← get?_eq, hsees.get?_eq]
    · exact get?_modify_of_not_sees hi _ hsees

/-! ### New scopes -/

theorem parent?_root (i : Nat) : (root : ScopeTree β).parent? i = none := by
  cases i <;> rfl

/-- In a tree that has nothing but a root no name has a value. -/
theorem get?_root (i : Nat) (name : String) : (root : ScopeTree β).get? i name = none := by
  have hown : (root : ScopeTree β).own i = .empty := by
    cases i <;> rfl
  rw [get?_eq, hown, parent?_root, Bindings.get?_empty]
  rfl

/-- The tree `t'` has a new scope, numbered by the number of scopes in `t`, in which names are read as in `i`. -/
structure Grows (t t' : ScopeTree β) (i : Nat) (parent : Option Nat) : Prop where
  /-- The other scopes have the parents that they had. -/
  parents : ∀ k, t'.parent? k = if k = t.size then parent else t.parent? k
  /-- The other scopes read what they read before. -/
  reads : ∀ k name, t'.get? k name = t.get? (if k = t.size then i else k) name

theorem grows_of_append {t' : ScopeTree β} {s : Scope β} {i : Nat} (h : t'.scopes = t.scopes ++ [s])
    (hreads : ∀ name, (s.bindings.get? name).or (s.parent.bind fun p => t.get? p name) = t.get? i name) :
    t.Grows t' i s.parent := by
  have hscopes : ∀ k, t'.scopes[k]? = if k = t.size then some s else t.scopes[k]? := by
    intro k
    rw [h, size]
    rcases lt_trichotomy k t.scopes.length with hk | rfl | hk
    · rw [List.getElem?_append_left hk, if_neg (Nat.ne_of_lt hk)]
    · simp
    · rw [if_neg (Nat.ne_of_gt hk), List.getElem?_eq_none (by simpa using Nat.succ_le_of_lt hk),
        List.getElem?_eq_none (Nat.le_of_lt hk)]
  have hparent : ∀ k, t'.parent? k = if k = t.size then s.parent else t.parent? k := by
    intro k
    rw [parent?, hscopes]
    split <;> rfl
  have hown : ∀ k, t'.own k = if k = t.size then s.bindings else t.own k := by
    intro k
    rw [own, hscopes]
    split <;> rfl
  have hother : ∀ k, k ≠ t.size → ∀ name, t'.get? k name = t.get? k name := by
    intro k hk name
    induction k using Nat.strong_induction_on with
    | _ k ih =>
        rw [get?_eq, get?_eq, hparent, hown, if_neg hk, if_neg hk]
        cases hp : t.parent? k with
        | none => rfl
        | some p =>
            have hlt := parent?_lt hp
            have hsize := lt_size_of_parent? hp
            rw [Option.bind_some, Option.bind_some, ih p hlt (by omega)]
  refine ⟨hparent, fun k name => ?_⟩
  split
  · next hk =>
      rw [get?_eq, hparent, hown, if_pos hk, if_pos hk, ← hreads]
      cases hp : s.parent with
      | none => rfl
      | some p =>
          have hlt : p < k := parent?_lt (t := t') (by rw [hparent, if_pos hk, hp])
          rw [Option.bind_some, Option.bind_some, hother p (by omega)]
  · next hk => exact hother k hk name

/-- **A scope that is pushed** has the other one around it, and binds nothing yet. -/
theorem push_grows {i : Nat} (hi : i < t.size) : ∃ t', t.push i = .ok t' ∧ t.Grows t' i (some i) := by
  refine ⟨_, dif_pos hi, grows_of_append (s := ⟨.empty, some i⟩) rfl fun name => ?_⟩
  rw [Bindings.get?_empty, Option.none_or, Option.bind_some]

/-- **A scope that is copied** has the parent of the original and binds what it binds. -/
theorem copy_grows {i : Nat} (hi : i < t.size) : ∃ t', t.copy i = .ok t' ∧ t.Grows t' i (t.parent? i) := by
  have hs : t.scopes[i]? = some (t.scopes.get ⟨i, hi⟩) := List.getElem?_eq_getElem hi
  have hparent : t.parent? i = (t.scopes.get ⟨i, hi⟩).parent := by rw [parent?, hs, Option.bind_some]
  have hown : t.own i = (t.scopes.get ⟨i, hi⟩).bindings := by rw [own, hs, Option.map_some, Option.getD_some]
  rw [copy]
  split
  · next hnone => simp [hs] at hnone
  · next s hsome =>
      obtain rfl := Option.some.inj (hs.symm.trans hsome)
      refine ⟨_, rfl, ?_⟩
      rw [hparent]
      exact grows_of_append rfl fun name => by rw [get?_eq i, hparent, hown]

/-! ### Merging -/

/-- What merging the scope `child` into its parent `i` does. -/
structure Merges (t t' : ScopeTree β) (i child : Nat) : Prop where
  /-- No scope has another parent. -/
  parents : ∀ k, t'.parent? k = t.parent? k
  /-- The parent reads what the child read. -/
  atParent : ∀ name, t'.get? i name = t.get? child name
  /-- The child reads what it read before. -/
  atChild : ∀ name, t'.get? child name = t.get? child name
  /-- The child binds no name itself any more. -/
  emptied : t'.own child = .empty
  /-- Another scope reads something else only of a name that the child has bound itself, and only if it comes
  to the parent when it looks for the name. -/
  elsewhere : ∀ k name, t'.get? k name ≠ t.get? k name →
    ((t.own child).get? name).isSome = true ∧ t.Sees name k i

theorem commit_of_parent? {i child : Nat} (h : t.parent? child = some i) : t.commit i child =
    .ok ((t.modify i fun b => b.setAll (t.own child)).modify child fun _ => .empty) := by
  obtain ⟨s, hs, hp⟩ := Option.bind_eq_some_iff.1 h
  simp only [commit, own, hs, hp, Option.map_some, Option.getD_some, if_true]

theorem commit_of_parent?_ne {i child : Nat} (h : t.parent? child ≠ some i) :
    t.commit i child = .error (if child < t.size then .notChild else .noScope) := by
  rw [commit]
  split
  · next hs =>
      have hchild : ¬ child < t.size := Nat.not_lt_of_le (List.getElem?_eq_none_iff.1 hs)
      rw [if_neg hchild]
  · next s hs =>
      have hp : s.parent ≠ some i := by simpa [parent?, hs] using h
      have hchild : child < t.size := (List.getElem?_eq_some_iff.1 hs).1
      rw [if_neg hp, if_pos hchild]

/-- **What merging does**: new bindings in the parent first, and none in the child then. -/
theorem commit_merges {i child : Nat} (h : t.parent? child = some i) :
    ∃ t', t.commit i child = .ok t' ∧ t.Merges t' i child := by
  have hlt : i < child := parent?_lt h
  have hchild : child < t.size := lt_size_of_parent? h
  have hi : i < t.size := Nat.lt_trans hlt hchild
  refine ⟨_, commit_of_parent? h, ?_⟩
  set u := t.modify i fun b => b.setAll (t.own child) with hu
  have hchild' : child < u.size := by simpa [hu, modify, size] using hchild
  -- the parent, before the bindings of the child are gone, reads what the child read
  have hread : ∀ k name, t.Sees name k i → u.get? k name = t.get? child name := by
    intro k name hsees
    rw [hu, hsees.get?_modify hi, Bindings.get?_setAll, Option.or_assoc, ← get?_eq, get?_eq child, h,
      Option.bind_some]
  have hbelow : ∀ k name, t.Sees name k child →
      (u.modify child fun _ => .empty).get? k name = t.get? child name := by
    intro k name hsees
    have hsees' : u.Sees name k child := (sees_modify_iff hi _ (Nat.le_of_lt hlt)).2 hsees
    have hparent : u.parent? child = some i := (parent?_modify i child _).trans h
    rw [hsees'.get?_modify hchild', Bindings.get?_empty, Option.none_or, hparent, Option.bind_some,
      hread i name (.here i)]
  have hbeside : ∀ k name, ¬ t.Sees name k child →
      (u.modify child fun _ => .empty).get? k name = u.get? k name := by
    intro k name hsees
    exact get?_modify_of_not_sees hchild' _ fun hsees' =>
      hsees ((sees_modify_iff hi _ (Nat.le_of_lt hlt)).1 hsees')
  have habove : ∀ name, ¬ t.Sees name i child := fun name hsees => Nat.not_le_of_lt hlt hsees.le
  refine ⟨fun k => ?_, fun name => ?_, fun name => hbelow child name (.here child), ?_,
    fun k name hne => ?_⟩
  · rw [parent?_modify, hu, parent?_modify]
  · rw [hbeside i name (habove name), hread i name (.here i)]
  · rw [own_modify child child _ hchild', if_pos rfl]
  · by_cases hsees : t.Sees name k child
    · exact absurd ((hbelow k name hsees).trans hsees.get?_eq.symm) hne
    rw [hbeside k name hsees] at hne
    by_cases hparent : t.Sees name k i
    · refine ⟨?_, hparent⟩
      by_contra hfree
      have hsame : t.get? child name = t.get? i name := by
        rw [get?_eq child, Option.not_isSome_iff_eq_none.1 hfree, h, Option.none_or, Option.bind_some]
      exact hne (by rw [hread k name hparent, hsame, hparent.get?_eq])
    · exact absurd (get?_modify_of_not_sees hi _ hparent) hne

/-! ### Nested maps -/

/-- The scopes of a tree are nested maps. -/
structure IsNested (t : ScopeTree β) : Prop where
  /-- A name has the value that the nearest scope gives it. -/
  nearest : ∀ i name v, t.get? i name = some v ↔ ∃ j, t.Sees name i j ∧ (t.own j).get? name = some v
  /-- A scope can be merged into its parent. -/
  merge : ∀ i child, t.parent? child = some i → ∃ t', t.commit i child = .ok t' ∧ t.Merges t' i child
  /-- It can be merged into no other scope. -/
  refuse : ∀ i child, t.parent? child ≠ some i →
    t.commit i child = .error (if child < t.size then .notChild else .noScope)
  /-- The names of a scope are those that are bound there, each once and in increasing order, and these are the
  names that have a value. -/
  names : ∀ i e, t.env? i = .ok e → e.names.Pairwise (· < ·) ∧
    ∀ name, (name ∈ e.names ↔ e.contains name = true) ∧ e.contains name = (t.get? i name).isSome

/-- **Scopes are nested maps**, in every tree, whatever has been bound and merged in it. -/
theorem nests (t : ScopeTree β) : t.IsNested where
  nearest _ _ _ := get?_eq_some_iff
  merge _ _ := commit_merges
  refuse _ _ := commit_of_parent?_ne
  names i e he := by
    refine ⟨e.pairwise_names, fun name => ⟨e.mem_names_iff name, ?_⟩⟩
    rw [get?, he]
    exact e.contains_eq_isSome_get? name

end ScopeTree

end MatrixCalc
