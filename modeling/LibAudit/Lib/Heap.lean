import Mathlib.Data.List.Perm.Subperm
import Mathlib.Logic.Function.Basic

/-!
# A heap of objects

Objects of one type, by their addresses.  An address without an object is free: reading from it or writing
to it is an error, which is `none`.  All addresses from some bound on are free.

Where a new object is put is up to the `Allocator`.  It may take any free address, also one that was in use
before, so a pointer that was not reset may point at a new object.
-/

/-- The objects at the addresses. -/
structure Heap (α : Type) where
  cell : Nat → Option α
  bound : Nat
  free_of_le : ∀ a, bound ≤ a → cell a = none

namespace Heap

open Function

variable {α : Type}

/-- Nothing is allocated. -/
def empty : Heap α := ⟨fun _ => none, 0, fun _ _ => rfl⟩

/-- An object is put at an address. -/
def set (h : Heap α) (a : Nat) (v : α) : Heap α where
  cell := update h.cell a (some v)
  bound := max h.bound (a + 1)
  free_of_le b hb := by
    obtain ⟨hbound, hab⟩ := Nat.max_le.mp hb
    rw [update_of_ne (Nat.ne_of_gt hab)]
    exact h.free_of_le b hbound

/-- The object at an address is freed. -/
def free (h : Heap α) (a : Nat) : Heap α where
  cell := update h.cell a none
  bound := h.bound
  free_of_le b hb := by
    by_cases hab : b = a
    · rw [hab, update_self]
    · rw [update_of_ne hab]
      exact h.free_of_le b hb

/-- Writing to an object, which must be there. -/
def modify (h : Heap α) (a : Nat) (f : α → α) : Option (Heap α) :=
  (h.cell a).map fun v => h.set a (f v)

variable {h : Heap α} {a b : Nat} {v : α}

@[simp] theorem cell_set_self : (h.set a v).cell a = some v := update_self ..

theorem cell_set_of_ne (hne : b ≠ a) : (h.set a v).cell b = h.cell b := update_of_ne hne ..

@[simp] theorem cell_free_self : (h.free a).cell a = none := update_self ..

theorem cell_free_of_ne (hne : b ≠ a) : (h.free a).cell b = h.cell b := update_of_ne hne ..

theorem modify_eq (f : α → α) (ha : h.cell a = some v) : h.modify a f = some (h.set a (f v)) := by
  rw [modify, ha, Option.map_some]

theorem length_le_bound {l : List Nat} (hnodup : l.Nodup) (hlive : ∀ a ∈ l, h.cell a ≠ none) :
    l.length ≤ h.bound := by
  have hsub : l ⊆ List.range h.bound := by
    intro a ha
    rw [List.mem_range]
    by_contra hge
    exact hlive a ha (h.free_of_le a (Nat.not_lt.mp hge))
  have hlen := (hnodup.subperm hsub).length_le
  rwa [List.length_range] at hlen

end Heap

/-- Says where a new object is put. -/
structure Allocator (α : Type) where
  place : Heap α → Nat
  free_place : ∀ h : Heap α, h.cell (place h) = none

namespace Allocator

variable {α : Type}

/-- No address is used twice. -/
def behind : Allocator α := ⟨Heap.bound, fun h => h.free_of_le _ (Nat.le_refl _)⟩

end Allocator
