import Mathlib.Data.List.Basic
import Mathlib.Tactic.Ring

/-!
# Fixed-width numbers as bytes

A number stored in `w` bytes, least significant byte first (`bytesLE`) or most significant byte
first (`bytesBE`), and the way back (`ofBytesLE`, `ofBytesBE`).  Writing drops what does not fit,
exactly as an assignment to a `w`-byte field does, so the round trip is a reduction modulo
`256 ^ w` (`ofBytesLE_bytesLE`, `ofBytesBE_bytesBE`) and is the identity on the numbers that fit.
-/

namespace Word

/-- The `w` low-order bytes of `v`, least significant first. -/
def bytesLE : Nat → Nat → List UInt8
  | 0, _ => []
  | w + 1, v => UInt8.ofNat v :: bytesLE w (v / 256)

/-- The number a list of bytes stands for, least significant first. -/
def ofBytesLE : List UInt8 → Nat
  | [] => 0
  | b :: bs => b.toNat + 256 * ofBytesLE bs

/-- The `w` low-order bytes of `v`, most significant first: network byte order. -/
def bytesBE (w v : Nat) : List UInt8 := (bytesLE w v).reverse

/-- The number a list of bytes stands for, most significant first. -/
def ofBytesBE (bs : List UInt8) : Nat := ofBytesLE bs.reverse

@[simp] theorem length_bytesLE (w v : Nat) : (bytesLE w v).length = w := by
  induction w generalizing v with
  | zero => rfl
  | succ w ih => simp [bytesLE, ih]

@[simp] theorem length_bytesBE (w v : Nat) : (bytesBE w v).length = w := by
  simp [bytesBE]

theorem ofBytesLE_bytesLE (w v : Nat) : ofBytesLE (bytesLE w v) = v % 256 ^ w := by
  induction w generalizing v with
  | zero => simp [bytesLE, ofBytesLE, Nat.mod_one]
  | succ w ih =>
    have hb : (UInt8.ofNat v).toNat = v % 256 := by simp
    rw [bytesLE, ofBytesLE, ih, hb, pow_succ, mul_comm (256 ^ w) 256, Nat.mod_mul]

theorem ofBytesBE_bytesBE (w v : Nat) : ofBytesBE (bytesBE w v) = v % 256 ^ w := by
  rw [ofBytesBE, bytesBE, List.reverse_reverse, ofBytesLE_bytesLE]

theorem ofBytesBE_bytesBE_of_lt {w v : Nat} (h : v < 256 ^ w) : ofBytesBE (bytesBE w v) = v := by
  rw [ofBytesBE_bytesBE, Nat.mod_eq_of_lt h]

theorem ofBytesLE_bytesLE_of_lt {w v : Nat} (h : v < 256 ^ w) : ofBytesLE (bytesLE w v) = v := by
  rw [ofBytesLE_bytesLE, Nat.mod_eq_of_lt h]

theorem ofBytesLE_lt (bs : List UInt8) : ofBytesLE bs < 256 ^ bs.length := by
  induction bs with
  | nil => simp [ofBytesLE]
  | cons b bs ih =>
    have hb : b.toNat < 256 := b.toNat_lt
    rw [ofBytesLE, List.length_cons, pow_succ]
    omega

theorem ofBytesLE_inj {a b : List UInt8} (hlen : a.length = b.length)
    (h : ofBytesLE a = ofBytesLE b) : a = b := by
  induction a generalizing b with
  | nil => exact (List.eq_nil_of_length_eq_zero hlen.symm).symm
  | cons x a ih =>
    cases b with
    | nil => exact absurd hlen (by simp)
    | cons y b =>
      have hx : x.toNat < 256 := x.toNat_lt
      have hy : y.toNat < 256 := y.toNat_lt
      rw [ofBytesLE, ofBytesLE] at h
      obtain rfl : x = y := UInt8.toNat_inj.mp (by omega)
      rw [ih (Nat.succ_inj.mp hlen) (by omega)]

end Word
