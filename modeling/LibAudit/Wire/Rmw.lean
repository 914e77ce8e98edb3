import LibAudit.Lib.Word
import LibAudit.Lib.CString
import Mathlib.Data.List.GetD

/-!
# The managed wire format

`audisp-remote` and `auditd` exchange messages that start with a 16 byte header, described in
`lib/private.h` by `struct auditd_remote_message_wrapper` and the `AUDIT_RMW_*` macros: a magic
number, two version bytes, the type of the message, the number of bytes that follow and a sequence
number that a reply repeats.  All fields are stored least significant byte first.

The macros read the header at fixed offsets, so a header here is any list of bytes, read with
`getN32` and `getN16`; `unpackHeader_packHeader` says that what `AUDIT_RMW_PACK_HEADER` writes is
what `AUDIT_RMW_UNPACK_HEADER` reads.
-/

namespace LibAudit.Wire

open Word List

/-! ## Constants -/

/-- `MAX_AUDIT_MESSAGE_LENGTH`. -/
def maxAuditMessageLength : Nat := 8970

/-- `AUDIT_RMW_HEADER_SIZE`. -/
def rmwHeaderSize : Nat := 16

/-- `AUDIT_RMW_MAGIC`. -/
def rmwMagic : Nat := 0xff0000fe

/-- `AUDIT_RMW_HEADER_VERSION`. -/
def rmwHeaderVersion : UInt8 := 0

/-- `AUDIT_RMW_TYPE_FATALMASK`: the reply indicates a fatal error of some sort. -/
def rmwTypeFatalmask : Nat := 0x20000000

/-- `AUDIT_RMW_TYPE_WARNMASK`: the reply indicates success but with some warnings. -/
def rmwTypeWarnmask : Nat := 0x10000000

/-- `AUDIT_RMW_TYPE_MESSAGE`. -/
def rmwTypeMessage : Nat := 0x00000000

/-- `AUDIT_RMW_TYPE_HEARTBEAT`. -/
def rmwTypeHeartbeat : Nat := 0x00000001

/-- `AUDIT_RMW_TYPE_ACK`. -/
def rmwTypeAck : Nat := 0x40000000

/-- `AUDIT_RMW_TYPE_ENDING`. -/
def rmwTypeEnding : Nat := 0x40000001

/-- `AUDIT_RMW_TYPE_DISKLOW`. -/
def rmwTypeDisklow : Nat := 0x50000001

/-- `AUDIT_RMW_TYPE_DISKFULL`. -/
def rmwTypeDiskfull : Nat := 0x60000001

/-- `AUDIT_RMW_TYPE_DISKERROR`. -/
def rmwTypeDiskerror : Nat := 0x60000002

/-! ## Reading and writing a header -/

/-- `_AUDIT_RMW_GETN32`. -/
def getN32 (header : Bytes) (i : Nat) : Nat := ofBytesLE ((header.drop i).take 4)

/-- `_AUDIT_RMW_GETN16`. -/
def getN16 (header : Bytes) (i : Nat) : Nat := ofBytesLE ((header.drop i).take 2)

/-- `AUDIT_RMW_IS_MAGIC`. -/
def isMagic (header : Bytes) (length : Nat) : Bool :=
  decide (4 ≤ length) && decide (getN32 header 0 = rmwMagic)

/-- The fields of a header. -/
structure Header where
  hver : UInt8
  mver : UInt8
  type : Nat
  len : Nat
  seq : Nat
  deriving DecidableEq, Repr

/-- `AUDIT_RMW_UNPACK_HEADER`. -/
def unpackHeader (header : Bytes) : Header :=
  ⟨header.getD 4 0, header.getD 5 0, getN32 header 6, getN16 header 10, getN32 header 12⟩

/-- `AUDIT_RMW_PACK_HEADER`. -/
def packHeader (mver : UInt8) (type len seq : Nat) : Bytes :=
  bytesLE 4 rmwMagic ++ ([rmwHeaderVersion, mver] ++
    (bytesLE 4 type ++ (bytesLE 2 len ++ bytesLE 4 seq)))

@[simp] theorem length_packHeader (mver : UInt8) (type len seq : Nat) :
    (packHeader mver type len seq).length = rmwHeaderSize := by
  simp [packHeader, rmwHeaderSize]

/-! ## Only the front of a buffer matters -/

variable {a b : Bytes}

theorem getN32_congr {i n : Nat} (hi : i + 4 ≤ n) (h : a.take n = b.take n) :
    getN32 a i = getN32 b i := by
  have key (l : Bytes) : (l.drop i).take 4 = ((l.take n).drop i).take 4 := by
    rw [drop_take, take_take, Nat.min_eq_left (by omega)]
  rw [getN32, getN32, key a, key b, h]

theorem getN16_congr {i n : Nat} (hi : i + 2 ≤ n) (h : a.take n = b.take n) :
    getN16 a i = getN16 b i := by
  have key (l : Bytes) : (l.drop i).take 2 = ((l.take n).drop i).take 2 := by
    rw [drop_take, take_take, Nat.min_eq_left (by omega)]
  rw [getN16, getN16, key a, key b, h]

/-- The magic number is looked for in the first `length` bytes only. -/
theorem isMagic_congr {n : Nat} (h : a.take n = b.take n) : isMagic a n = isMagic b n := by
  by_cases hn : 4 ≤ n
  · rw [isMagic, isMagic, getN32_congr (show 0 + 4 ≤ n by omega) h]
  · simp [isMagic, hn]

theorem unpackHeader_congr (h : a.take rmwHeaderSize = b.take rmwHeaderSize) :
    unpackHeader a = unpackHeader b := by
  have hget (i : Nat) (hi : i < rmwHeaderSize) : a.getD i 0 = b.getD i 0 := by
    have key (l : Bytes) : l.getD i 0 = (l.take rmwHeaderSize).getD i 0 := by
      simp [getD_eq_getElem?_getD, getElem?_take_of_lt hi]
    rw [key a, key b, h]
  rw [unpackHeader, unpackHeader, hget 4 (by decide), hget 5 (by decide),
    getN32_congr (by decide) h, getN16_congr (by decide) h, getN32_congr (by decide) h]

/-! ## Round trip -/

/-- What is packed is what is unpacked, whatever follows the header. -/
theorem unpackHeader_packHeader {mver : UInt8} {type len seq : Nat} (htype : type < 2 ^ 32)
    (hlen : len < 2 ^ 16) (hseq : seq < 2 ^ 32) (body : Bytes) :
    unpackHeader (packHeader mver type len seq ++ body) =
      ⟨rmwHeaderVersion, mver, type, len, seq⟩ := by
  have htype' : ofBytesLE (bytesLE 4 type) = type := ofBytesLE_bytesLE_of_lt (by omega)
  have hlen' : ofBytesLE (bytesLE 2 len) = len := ofBytesLE_bytesLE_of_lt (by omega)
  have hseq' : ofBytesLE (bytesLE 4 seq) = seq := ofBytesLE_bytesLE_of_lt (by omega)
  simp only [unpackHeader, packHeader, getN32, getN16, Header.mk.injEq]
  exact ⟨rfl, rfl, htype', hlen', hseq'⟩

theorem isMagic_packHeader {mver : UInt8} {type len seq : Nat} (body : Bytes) {n : Nat}
    (hn : 4 ≤ n) : isMagic (packHeader mver type len seq ++ body) n = true := by
  have hmagic : ofBytesLE (bytesLE 4 rmwMagic) = rmwMagic := ofBytesLE_bytesLE_of_lt (by decide)
  simp only [isMagic, hn, decide_true, Bool.true_and, decide_eq_true_eq]
  exact hmagic

end LibAudit.Wire
