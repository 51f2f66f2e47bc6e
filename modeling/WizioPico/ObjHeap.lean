/-
**Heaps of objects.**

C programs that link structures together with pointers are modelled on a heap that maps the
addresses of the allocated objects to their contents.  Nothing is allocated at the null address,
and an object that has been freed is gone: both a null and a dangling pointer have no object, so
an access through them has no outcome.

* `ObjHeap` — the heap, a finite table without an entry for the null address;
* `ObjHeap.load`, `ObjHeap.modify`, `ObjHeap.alloc`, `ObjHeap.free` — the operations;
* `ObjHeap.length_le_size` — there are no more objects than the heap has room for, which bounds
  every walk that does not come back to a node.
-/

import Mathlib.Data.List.Basic
import Mathlib.Data.List.Perm.Subperm

set_option relaxedAutoImplicit false
set_option autoImplicit false

/-- A heap of objects of type `α`, addressed by numbers other than zero. -/
structure ObjHeap (α : Type*) where
  table : List (ℕ × α)
  null : table.lookup 0 = none

namespace ObjHeap

variable {α : Type*}

/-- The object a pointer points to, if there is one. -/
def load (h : ObjHeap α) (p : ℕ) : Option α := h.table.lookup p

/-- The number of entries of the table. -/
def size (h : ObjHeap α) : ℕ := h.table.length

/-- The heap without objects. -/
def empty : ObjHeap α := ⟨[], rfl⟩

@[simp] theorem load_zero (h : ObjHeap α) : h.load 0 = none := h.null

@[simp] theorem load_empty (p : ℕ) : (empty : ObjHeap α).load p = none := rfl

theorem ne_zero_of_load {h : ObjHeap α} {p : ℕ} {v : α} (hp : h.load p = some v) : p ≠ 0 := by
  rintro rfl
  simp at hp

/-! ### Allocating -/

/-- A new object at an address that the allocator has returned. -/
def alloc (h : ObjHeap α) (p : ℕ) (v : α) (hp : p ≠ 0) : ObjHeap α where
  table := (p, v) :: h.table
  null := by
    rw [List.lookup_cons, beq_eq_false_iff_ne.2 hp.symm]
    exact h.null

@[simp] theorem load_alloc_self (h : ObjHeap α) (p : ℕ) (v : α) (hp : p ≠ 0) :
    (h.alloc p v hp).load p = some v := List.lookup_cons_self

theorem load_alloc_of_ne {h : ObjHeap α} {p q : ℕ} {v : α} {hp : p ≠ 0} (hq : q ≠ p) :
    (h.alloc p v hp).load q = h.load q := by
  rw [load, alloc, List.lookup_cons, beq_eq_false_iff_ne.2 hq]
  rfl

/-! ### Storing -/

private theorem lookup_cons_eq (q a : ℕ) (v : α) (l : List (ℕ × α)) :
    ((a, v) :: l).lookup q = if q = a then some v else l.lookup q := by
  by_cases hqa : q = a
  · rw [if_pos hqa, hqa, List.lookup_cons_self]
  · rw [if_neg hqa, List.lookup_cons, beq_eq_false_iff_ne.2 hqa]

private theorem lookup_map_store (l : List (ℕ × α)) (p q : ℕ) (f : α → α) :
    (l.map fun e => if e.1 = p then (e.1, f e.2) else e).lookup q =
      if q = p then (l.lookup q).map f else l.lookup q := by
  induction l with
  | nil => simp
  | cons e l ih =>
      obtain ⟨a, v⟩ := e
      rw [List.map_cons, lookup_cons_eq]
      by_cases hap : a = p
      · rw [if_pos hap, lookup_cons_eq, ih]
        by_cases hqa : q = a
        · rw [if_pos hqa, if_pos hqa, if_pos (hqa.trans hap)]
          rfl
        · rw [if_neg hqa, if_neg hqa]
      · rw [if_neg hap, lookup_cons_eq, ih]
        by_cases hqa : q = a
        · rw [if_pos hqa, if_pos hqa, if_neg (fun h => hap (hqa.symm.trans h))]
        · rw [if_neg hqa, if_neg hqa]

/-- An assignment to a field of the object at `p`, as the change `f` of the object; it has no
outcome if there is no object. -/
def modify (h : ObjHeap α) (p : ℕ) (f : α → α) : Option (ObjHeap α) :=
  (h.load p).map fun _ =>
    { table := h.table.map fun e => if e.1 = p then (e.1, f e.2) else e
      null := by rw [lookup_map_store, h.null]; split <;> rfl }

theorem modify_eq_none {h : ObjHeap α} {p : ℕ} {f : α → α} (hp : h.load p = none) :
    h.modify p f = none := by
  rw [modify, hp]
  rfl

/-- An assignment through a null pointer has no outcome. -/
@[simp] theorem modify_zero (h : ObjHeap α) (f : α → α) : h.modify 0 f = none :=
  modify_eq_none h.load_zero

/-- An assignment changes the object it names, and no other. -/
theorem exists_modify {h : ObjHeap α} {p : ℕ} {v : α} (f : α → α) (hp : h.load p = some v) :
    ∃ h', h.modify p f = some h' ∧ h'.load p = some (f v) ∧ ∀ q ≠ p, h'.load q = h.load q := by
  have hnew : ∀ q, (h.table.map fun e => if e.1 = p then (e.1, f e.2) else e).lookup q =
      if q = p then (h.load q).map f else h.load q := fun q => lookup_map_store h.table p q f
  refine ⟨_, by rw [modify, hp]; rfl, ?_, fun q hq => ?_⟩
  · rw [load, hnew, if_pos rfl, hp]
    rfl
  · rw [load, hnew, if_neg hq]

/-! ### Freeing -/

private theorem lookup_filter_free (l : List (ℕ × α)) (p q : ℕ) :
    (l.filter fun e => e.1 ≠ p).lookup q = if q = p then none else l.lookup q := by
  induction l with
  | nil => simp
  | cons e l ih =>
      obtain ⟨a, v⟩ := e
      rw [lookup_cons_eq]
      by_cases hap : a = p
      · rw [List.filter_cons_of_neg (by simpa using hap), ih]
        by_cases hqp : q = p
        · rw [if_pos hqp, if_pos hqp]
        · rw [if_neg hqp, if_neg hqp, if_neg (fun h => hqp (h.trans hap))]
      · rw [List.filter_cons_of_pos (by simpa using hap), lookup_cons_eq, ih]
        by_cases hqa : q = a
        · rw [if_pos hqa, if_pos hqa, if_neg (fun h => hap (hqa.symm.trans h))]
        · rw [if_neg hqa, if_neg hqa]

/-- The heap without the object at `p`. -/
def free (h : ObjHeap α) (p : ℕ) : ObjHeap α where
  table := h.table.filter fun e => e.1 ≠ p
  null := by rw [lookup_filter_free, h.null]; split <;> rfl

@[simp] theorem load_free_self (h : ObjHeap α) (p : ℕ) : (h.free p).load p = none := by
  rw [load, free, lookup_filter_free, if_pos rfl]

theorem load_free_of_ne {h : ObjHeap α} {p q : ℕ} (hq : q ≠ p) :
    (h.free p).load q = h.load q := by
  rw [load, free, lookup_filter_free, if_neg hq, load]

/-! ### The number of objects -/

theorem mem_of_load {h : ObjHeap α} {p : ℕ} {v : α} (hp : h.load p = some v) :
    p ∈ h.table.map Prod.fst := by
  have hsome : (h.table.lookup p).isSome := by
    rw [load] at hp
    rw [hp]
    rfl
  obtain ⟨e, he, hpe⟩ := List.lookup_isSome_iff.1 hsome
  exact List.mem_map.2 ⟨e, he, (beq_iff_eq.1 hpe).symm⟩

/-- Distinct objects have distinct entries in the table. -/
theorem length_le_size {h : ObjHeap α} {ps : List ℕ} (hnd : ps.Nodup)
    (hps : ∀ p ∈ ps, ∃ v, h.load p = some v) : ps.length ≤ h.size := by
  have hsub : ps ⊆ h.table.map Prod.fst := fun p hp => by
    obtain ⟨v, hv⟩ := hps p hp
    exact mem_of_load hv
  calc ps.length ≤ (h.table.map Prod.fst).length := (List.subperm_of_subset hnd hsub).length_le
    _ = h.size := List.length_map ..

end ObjHeap
