import LibAudit.Lib.CString

/-!
# Blocks of memory

An allocated block is the list of its bytes.  `resize` is what `realloc` makes of it, and `splice` what
it is after some bytes were copied into it.  Bytes that are new are arbitrary.
-/

namespace Memory

open List

/-- The block when it has been made `n` bytes long, with `fresh` for the bytes that are new. -/
def resize (block : Bytes) (n : Nat) (fresh : Nat → UInt8) : Bytes :=
  block.take n ++ (List.range (n - block.length)).map fresh

/-- The block with the bytes from the `i`-th on overwritten. -/
def splice (block : Bytes) (i : Nat) (data : Bytes) : Bytes :=
  block.take i ++ data ++ block.drop (i + data.length)

variable {block data : Bytes} {n i : Nat} {fresh : Nat → UInt8}

@[simp] theorem length_resize : (resize block n fresh).length = n := by
  simp [resize]
  omega

/-- What fits into the new block is kept. -/
theorem take_resize (h : i ≤ n) (hi : i ≤ block.length) : (resize block n fresh).take i = block.take i := by
  rw [resize, take_append_of_le_length (by simp; omega), take_take, Nat.min_eq_left h]

@[simp] theorem length_splice (h : i + data.length ≤ block.length) :
    (splice block i data).length = block.length := by
  simp [splice]
  omega

/-- Writing into the block, which fails where it would go past its end. -/
def store (block : Bytes) (i : Nat) (data : Bytes) : Option Bytes :=
  if i + data.length ≤ block.length then some (splice block i data) else none

/-- Writing right behind a part of the block. -/
theorem store_append (front : Bytes) (h : data.length ≤ block.length) :
    store (front ++ block) front.length data = some (front ++ (data ++ block.drop data.length)) := by
  rw [store, if_pos (by simp [h]), splice, take_left, drop_append, append_assoc,
    drop_eq_nil_of_le (Nat.le_add_right _ _), Nat.add_sub_cancel_left, nil_append]

theorem take_splice (data : Bytes) (h : i ≤ block.length) :
    (splice block i data).take (i + data.length) = block.take i ++ data := by
  have hlen : (block.take i ++ data).length = i + data.length := by simp [h]
  rw [splice, ← hlen, take_left]

end Memory
