import Mathlib.Algebra.Group.Int.Defs
import Mathlib.Algebra.Group.Nat.Defs
import Mathlib.Data.List.TakeWhile

/-!
# C strings

A `char *` is modelled by the bytes it points at.  `CString` is the string itself: bytes without
a NUL among them, which is what `strlen`, `strcpy` and the like see.  `cstr` reads a string out of
a buffer, up to its first NUL; `withNul` is the object a string occupies in memory.
-/

open List

/-- Bytes, as the source's `char` and `unsigned char` arrays hold them. -/
abbrev Bytes := List UInt8

/-- A string: bytes with no NUL among them. -/
structure CString where
  /-- The bytes before the terminating NUL. -/
  bytes : Bytes
  /-- The terminator is not one of them. -/
  nulFree : 0 ∉ bytes
  deriving DecidableEq

namespace CString

/-- `strlen`. -/
def strlen (s : CString) : Nat := s.bytes.length

/-- The string with its terminating NUL, as it lies in memory. -/
def withNul (s : CString) : Bytes := s.bytes ++ [0]

@[simp] theorem length_withNul (s : CString) : s.withNul.length = s.strlen + 1 := by
  simp [withNul, strlen]

@[ext] theorem ext {s t : CString} (h : s.bytes = t.bytes) : s = t := by
  cases s; cases t; cases h; rfl

end CString

/-- The part of a buffer before its first NUL. -/
def untilNul (buf : Bytes) : Bytes := buf.takeWhile (· != 0)

theorem zero_notMem_untilNul (buf : Bytes) : 0 ∉ untilNul buf := by
  intro h
  have := mem_takeWhile_imp h
  simp at this

/-- The string a buffer holds. -/
def cstr (buf : Bytes) : CString := ⟨untilNul buf, zero_notMem_untilNul buf⟩

theorem untilNul_of_notMem {buf : Bytes} (h : 0 ∉ buf) : untilNul buf = buf := by
  rw [untilNul, takeWhile_eq_self_iff]
  intro b hb
  have hne : b ≠ 0 := fun he => h (he ▸ hb)
  simpa using hne

theorem untilNul_append_zero (a rest : Bytes) : untilNul (a ++ 0 :: rest) = untilNul a := by
  induction a with
  | nil => rfl
  | cons b a ih =>
    rw [untilNul, untilNul] at ih
    rw [cons_append, untilNul, untilNul, takeWhile_cons, takeWhile_cons, ih]

theorem untilNul_append_nul {s : Bytes} (h : 0 ∉ s) (rest : Bytes) :
    untilNul (s ++ 0 :: rest) = s := by
  rw [untilNul_append_zero, untilNul_of_notMem h]

@[simp] theorem untilNul_withNul_append (s : CString) (rest : Bytes) :
    untilNul (s.withNul ++ rest) = s.bytes := by
  rw [CString.withNul, append_assoc, singleton_append, untilNul_append_nul s.nulFree]

@[simp] theorem cstr_withNul_append (s : CString) (rest : Bytes) :
    cstr (s.withNul ++ rest) = s :=
  CString.ext (untilNul_withNul_append s rest)

@[simp] theorem cstr_withNul (s : CString) : cstr s.withNul = s := by
  simpa using cstr_withNul_append s []

/-! ## Characters -/

/-- What can be checked for each of the numbers of bytes holds of every byte. -/
theorem forall_byte {P : UInt8 → Prop} (h : ∀ n < 256, P (UInt8.ofNat n)) (b : UInt8) : P b := by
  have hb := h b.toNat b.toNat_lt
  rwa [UInt8.ofNat_toNat] at hb

/-- The bytes of a string literal. -/
def ascii (s : String) : Bytes := s.toList.map fun c => UInt8.ofNat c.toNat

/-- `isdigit`. -/
def isDigit (b : UInt8) : Bool := decide (48 ≤ b) && decide (b ≤ 57)

/-- `isspace`. -/
def isSpace (b : UInt8) : Bool := b == 32 || (decide (9 ≤ b) && decide (b ≤ 13))

/-- A lower case letter as upper case, everything else as it is. -/
def upcase (b : UInt8) : UInt8 := if 97 ≤ b ∧ b ≤ 122 then b - 32 else b

/-- An upper case letter as lower case, everything else as it is. -/
def downcase (b : UInt8) : UInt8 := if 65 ≤ b ∧ b ≤ 90 then b + 32 else b

/-- The number a run of digits stands for. -/
def ofDigits (ds : Bytes) : Nat := ds.foldl (fun n d => 10 * n + (d.toNat - 48)) 0

/-- `strtol(s, NULL, 10)` with a `long` of 64 bits. -/
def strtol (s : Bytes) : Int :=
  let s := s.dropWhile isSpace
  let neg := s.head? == some 45
  let s := if s.head? == some 45 || s.head? == some 43 then s.drop 1 else s
  let n := ofDigits (s.takeWhile isDigit)
  if neg then -(min n (2 ^ 63) : Nat) else (min n (2 ^ 63 - 1) : Nat)

/-- `strtoul(s, NULL, 10)` with an `unsigned long` of 64 bits; `none` if `errno` is set to `ERANGE`.
A minus sign negates modulo `2 ^ 64`. -/
def strtoul (s : Bytes) : Option UInt64 :=
  let s := s.dropWhile isSpace
  let neg := s.head? == some 45
  let s := if s.head? == some 45 || s.head? == some 43 then s.drop 1 else s
  let n := ofDigits (s.takeWhile isDigit)
  if 2 ^ 64 ≤ n then none else some (if neg then -UInt64.ofNat n else UInt64.ofNat n)
