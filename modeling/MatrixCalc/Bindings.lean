/-
**Bindings of names.**

Bindings give values to some names, each name at most once, in the order in which the names were first
bound.

Main definitions:

* `MatrixCalc.Bindings` — the bindings;
* `MatrixCalc.Bindings.get?` — the value of a name;
* `MatrixCalc.Bindings.set` — a name bound anew;
* `MatrixCalc.Bindings.erase` — a name not bound any more;
* `MatrixCalc.Bindings.setAll` — all names of other bindings bound anew.

Main results:

* `MatrixCalc.Bindings.get?_set`, `MatrixCalc.Bindings.get?_erase`, `MatrixCalc.Bindings.get?_setAll` —
  what binding does to the values;
* `MatrixCalc.Bindings.names_set` — what it does to the names.
-/

set_option autoImplicit false

namespace MatrixCalc

/-- Names and their values, in the order in which the names were first bound. -/
structure Bindings (β : Type) where
  /-- The names with their values. -/
  entries : List (String × β)
  /-- No name is bound twice. -/
  nodup : (entries.map Prod.fst).Nodup

namespace Bindings

variable {β : Type}

/-- No name is bound. -/
def empty : Bindings β := ⟨[], by simp⟩

instance : Inhabited (Bindings β) := ⟨empty⟩

/-- The names that are bound, in the order in which they were first. -/
def names (b : Bindings β) : List String := b.entries.map Prod.fst

@[simp] theorem names_empty : (empty : Bindings β).names = [] := rfl

/-- Whether a name is bound. -/
def contains (b : Bindings β) (name : String) : Bool := b.names.contains name

/-- The value of a name. -/
def get? (b : Bindings β) (name : String) : Option β := b.entries.lookup name

@[simp] theorem get?_empty (name : String) : (empty : Bindings β).get? name = none := rfl

/-- The entries with a name bound anew: in its place if it has one, else at the end. -/
def setEntry (name : String) (v : β) : List (String × β) → List (String × β)
  | [] => [(name, v)]
  | e :: es => if e.1 = name then (name, v) :: es else e :: setEntry name v es

theorem map_fst_setEntry (name : String) (v : β) (es : List (String × β)) :
    (setEntry name v es).map Prod.fst =
      if name ∈ es.map Prod.fst then es.map Prod.fst else es.map Prod.fst ++ [name] := by
  induction es with
  | nil => simp [setEntry]
  | cons e es ih =>
      simp only [setEntry]
      split
      · next h => simp [h]
      · next h =>
          simp only [List.map_cons, ih, List.mem_cons, Ne.symm h, false_or]
          split <;> simp

theorem nodup_setEntry {name : String} {v : β} {es : List (String × β)}
    (h : (es.map Prod.fst).Nodup) : ((setEntry name v es).map Prod.fst).Nodup := by
  rw [map_fst_setEntry]
  split
  · exact h
  · next hn =>
      rw [List.nodup_append]
      refine ⟨h, by simp, ?_⟩
      intro a ha b hb
      simp only [List.mem_singleton] at hb
      rintro rfl
      exact hn (hb ▸ ha)

/-- The bindings with a name bound anew. -/
def set (b : Bindings β) (name : String) (v : β) : Bindings β :=
  ⟨setEntry name v b.entries, nodup_setEntry b.nodup⟩

/-- Binding a name keeps its place, or puts it last. -/
theorem names_set (b : Bindings β) (name : String) (v : β) :
    (b.set name v).names = if name ∈ b.names then b.names else b.names ++ [name] :=
  map_fst_setEntry name v b.entries

theorem lookup_cons (n : String) (e : String × β) (es : List (String × β)) :
    (e :: es).lookup n = if n = e.1 then some e.2 else es.lookup n := by
  obtain ⟨k, v⟩ := e
  by_cases h : n = k
  · subst h; simp
  · have hb : (n == k) = false := by simpa using h
    simp [List.lookup_cons, hb, h]

theorem lookup_setEntry (name n : String) (v : β) (es : List (String × β)) :
    (setEntry name v es).lookup n = if n = name then some v else es.lookup n := by
  induction es with
  | nil => simp [setEntry, lookup_cons]
  | cons e es ih =>
      simp only [setEntry]
      split
      · next h =>
          subst h
          simp only [lookup_cons]
          split <;> rfl
      · next h =>
          simp only [lookup_cons, ih]
          by_cases he : n = e.1
          · have hn : n ≠ name := he ▸ h
            simp [he, h]
          · simp [he]

/-- Binding a name gives it the value and leaves the others alone. -/
@[simp] theorem get?_set (b : Bindings β) (name n : String) (v : β) :
    (b.set name v).get? n = if n = name then some v else b.get? n :=
  lookup_setEntry name n v b.entries

/-- The bindings without a name. -/
def erase (b : Bindings β) (name : String) : Bindings β :=
  ⟨b.entries.filter fun e => e.1 != name, (List.filter_sublist.map Prod.fst).nodup b.nodup⟩

theorem lookup_filter_ne (name n : String) (es : List (String × β)) :
    (es.filter fun e => e.1 != name).lookup n = if n = name then none else es.lookup n := by
  induction es with
  | nil => simp
  | cons e es ih =>
      by_cases he : e.1 = name
      · rw [List.filter_cons_of_neg (by simpa using he), ih, lookup_cons]
        by_cases hn : n = name
        · simp [hn]
        · simp [hn, he]
      · rw [List.filter_cons_of_pos (by simpa using he), lookup_cons, lookup_cons, ih]
        by_cases hn : n = e.1
        · simp [hn, he]
        · simp [hn]

/-- A name that is not bound any more has no value, the others keep theirs. -/
@[simp] theorem get?_erase (b : Bindings β) (name n : String) :
    (b.erase name).get? n = if n = name then none else b.get? n :=
  lookup_filter_ne name n b.entries

/-- The bindings with all names of `c` bound anew, to their values there. -/
def setAll (b c : Bindings β) : Bindings β := c.entries.foldl (fun b e => b.set e.1 e.2) b

@[simp] theorem setAll_empty (b : Bindings β) : b.setAll empty = b := rfl

theorem get?_foldl_set (es : List (String × β)) (h : (es.map Prod.fst).Nodup) (b : Bindings β)
    (n : String) :
    (es.foldl (fun b e => b.set e.1 e.2) b).get? n = (es.lookup n).or (b.get? n) := by
  induction es generalizing b with
  | nil => rfl
  | cons e es ih =>
      simp only [List.map_cons, List.nodup_cons] at h
      simp only [List.foldl_cons]
      rw [ih h.2]
      by_cases hn : n = e.1
      · subst hn
        have : es.lookup e.1 = none := by
          rw [List.lookup_eq_none_iff]
          intro p hp
          have hm := List.mem_map_of_mem (f := Prod.fst) hp
          simp only [bne_iff_ne, ne_eq]
          exact fun he => h.1 (by rw [he]; exact hm)
        simp [this, lookup_cons]
      · simp [lookup_cons, hn]

/-- Names bound in `c` have their values there, the others keep theirs. -/
@[simp] theorem get?_setAll (b c : Bindings β) (n : String) :
    (b.setAll c).get? n = (c.get? n).or (b.get? n) :=
  get?_foldl_set c.entries c.nodup b n

/-- Exactly the bound names have a value. -/
theorem isSome_get? (b : Bindings β) (n : String) : (b.get? n).isSome = b.contains n := by
  rw [Bool.eq_iff_iff]
  simp only [get?, contains, names, List.contains_iff_mem]
  rw [Option.isSome_iff_ne_none, ne_eq, List.lookup_eq_none_iff]
  constructor
  · intro h
    apply Classical.byContradiction
    intro hm
    apply h
    intro p hp
    simp only [bne_iff_ne, ne_eq]
    rintro rfl
    exact hm (List.mem_map_of_mem (f := Prod.fst) hp)
  · intro hm h
    obtain ⟨p, hp, rfl⟩ := List.mem_map.1 hm
    have := h p hp
    simp at this

end Bindings

end MatrixCalc
