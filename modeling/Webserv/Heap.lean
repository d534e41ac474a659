import Mathlib.Data.List.Basic

/-!
# A heap of objects of one class

`new` hands out every address once and `delete` empties it, so an address
that is read after its object was deleted is told apart from a live one.
-/

universe u

/-- The objects by address; `none` where the object has been deleted. -/
structure Heap (α : Type u) where
  cells : List (Option α)

namespace Heap

variable {α : Type u}

def empty : Heap α := ⟨[]⟩

/-- The address of the next object. -/
def next (h : Heap α) : Nat := h.cells.length

def get? (h : Heap α) (i : Nat) : Option α := h.cells[i]?.join

def alloc (h : Heap α) (a : α) : Heap α := ⟨h.cells ++ [some a]⟩

def set (h : Heap α) (i : Nat) (a : α) : Heap α := ⟨h.cells.set i (some a)⟩

def free (h : Heap α) (i : Nat) : Heap α := ⟨h.cells.set i none⟩

@[simp] theorem get?_empty (i : Nat) : (empty : Heap α).get? i = none := rfl

theorem lt_next_of_get? {h : Heap α} {i : Nat} {a : α} (hget : h.get? i = some a) :
    i < h.next := by
  unfold get? at hget
  cases hi : h.cells[i]? with
  | none => rw [hi] at hget; cases hget
  | some o => exact (List.getElem?_eq_some_iff.mp hi).1

@[simp] theorem get?_alloc_self (h : Heap α) (a : α) : (h.alloc a).get? h.next = some a := by
  simp [get?, alloc, next]

theorem get?_alloc_of_ne (h : Heap α) (a : α) {i : Nat} (hi : i ≠ h.next) :
    (h.alloc a).get? i = h.get? i := by
  unfold get? alloc next at *
  rcases Nat.lt_or_gt_of_ne hi with hlt | hgt
  · rw [List.getElem?_append_left hlt]
  · rw [List.getElem?_eq_none (by simp; omega), List.getElem?_eq_none (by omega)]

theorem get?_alloc (h : Heap α) (a : α) (i : Nat) :
    (h.alloc a).get? i = if i = h.next then some a else h.get? i := by
  split
  · rename_i heq
    rw [heq, get?_alloc_self]
  · rename_i hne
    exact get?_alloc_of_ne h a hne

theorem get?_set (h : Heap α) {i : Nat} (a : α) (hi : i < h.next) (j : Nat) :
    (h.set i a).get? j = if j = i then some a else h.get? j := by
  unfold get? set next at *
  split
  · rename_i heq
    simp [heq, hi]
  · rename_i hne
    rw [List.getElem?_set_ne (Ne.symm hne)]

theorem get?_set_of_live {h : Heap α} {i : Nat} {a : α} (hi : h.get? i = some a) (a' : α)
    (j : Nat) : (h.set i a').get? j = if j = i then some a' else h.get? j :=
  get?_set h a' (lt_next_of_get? hi) j

theorem get?_free (h : Heap α) (i j : Nat) :
    (h.free i).get? j = if j = i then none else h.get? j := by
  unfold get? free
  split
  · rename_i heq
    subst heq
    rw [List.getElem?_set_self']
    cases h.cells[j]? <;> rfl
  · rename_i hne
    rw [List.getElem?_set_ne (Ne.symm hne)]

@[simp] theorem next_alloc (h : Heap α) (a : α) : (h.alloc a).next = h.next + 1 := by
  simp [next, alloc]

@[simp] theorem next_set (h : Heap α) (i : Nat) (a : α) : (h.set i a).next = h.next := by
  simp [next, set]

@[simp] theorem next_free (h : Heap α) (i : Nat) : (h.free i).next = h.next := by
  simp [next, free]

end Heap
