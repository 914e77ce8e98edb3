import LibAudit.Lib.Slots
import LibAudit.Lib.Text
import Mathlib.Data.Prod.Lex

/-!
# The time stamp of a record

Records of one event have the same time stamp, `audit(seconds.milliseconds:serial)`, and come from the
same node.  `auparse.c` and `ausearch-lol.c` find it in the same way.  They copy the beginning of the
line to the stack, split it at blanks, and look for the parenthesis in the word after the type: first
in its tenth byte, without asking whether the word is that long.  So `Mem` is the copy with its NUL and
whatever lies behind it on the stack, and a pointer is an index into it.
-/

namespace LibAudit.Records

/-! ## Strings in memory -/

/-- Memory from the beginning of the copy on. -/
abbrev Mem := Bytes

namespace Mem

/-- The string at `p`. -/
def str (m : Mem) (p : Nat) : Bytes := untilNul (m.drop p)

/-- `strchr`. -/
def strchr (m : Mem) (p : Nat) (c : UInt8) : Option Nat :=
  ((m.str p).findIdx? (· == c)).map (p + ·)

/-- `audit_strsplit`, continued at `pos`: the memory afterwards; and where the next word starts, if
there is one, with the place at which to go on behind it. -/
def strsplit (m : Mem) (pos : Nat) : Mem × Option (Nat × Option Nat) :=
  let start := pos + ((m.str pos).takeWhile (· == 32)).length
  match m.strchr start 32 with
  | some q => (m.set q 0, some (start, some q))
  | none => (m, if m.getD start 0 = 0 then none else some (start, none))

/-- `audit_strsplit(NULL)`. -/
def strsplitNext (m : Mem) : Option Nat → Mem × Option (Nat × Option Nat)
  | none => (m, none)
  | some q => m.strsplit (q + 1)

/-- `strndupa` of the beginning of a line, of which more is needed if it starts with the node; `junk`
is what lies behind the copy. -/
def ofLine (b junk : Bytes) : Mem := b.take (if b.head? = some 110 then 340 else 80) ++ 0 :: junk

/-- Where the time stamp starts in the word at `ptr`. -/
def stampStart (m : Mem) (ptr : Nat) : Option Nat :=
  ((if m.getD (ptr + 9) 0 = 40 then some (ptr + 9) else m.strchr ptr 40)).map (· + 1)

/-- The memory after the parenthesis at the end of the time stamp was overwritten. -/
def cutStamp (m : Mem) (ptr : Nat) : Mem :=
  match m.strchr ptr 41 with
  | none => m
  | some eptr => m.set eptr 0

end Mem

/-! ## Time stamps -/

/-- `au_event_t`, and `event` without the type. -/
structure EventId where
  sec : Int64
  milli : UInt32
  serial : UInt64
  node : Option Bytes
  deriving DecidableEq

/-- What follows the first `c`. -/
def after (c : UInt8) (s : Bytes) : Option Bytes :=
  if s.contains c then some ((s.dropWhile (· != c)).drop 1) else none

/-- `str2event`.  The serial number is looked for behind the milliseconds, if there are any. -/
def str2event (s : Bytes) (node : Option Bytes) : Option EventId := do
  let sec ← strtoul s
  let milli ← match after 46 s with
    | some ptr => strtoul ptr
    | none => some 0
  let serial ← match after 58 ((after 46 s).getD s) with
    | some ptr => strtoul ptr
    | none => some 0
  some ⟨sec.toInt64, milli.toUInt32, serial, node⟩

/-- `auparse_timestamp_compare` and `compare_event_time` return 1. -/
def EventId.later (e₁ e₂ : EventId) : Bool :=
  decide (e₂.sec < e₁.sec ∨ (e₁.sec = e₂.sec ∧
    (e₂.milli < e₁.milli ∨ (e₁.milli = e₂.milli ∧ e₂.serial < e₁.serial))))

theorem EventId.later_eq_false_iff {e₁ e₂ : EventId} : e₁.later e₂ = false ↔
    e₁.sec.toInt < e₂.sec.toInt ∨ (e₁.sec.toInt = e₂.sec.toInt ∧
      (e₁.milli.toNat < e₂.milli.toNat ∨ (e₁.milli.toNat = e₂.milli.toNat ∧
        e₁.serial.toNat ≤ e₂.serial.toNat))) := by
  rw [later, decide_eq_false_iff_not, Int64.lt_iff_toInt_lt, UInt32.lt_iff_toNat_lt,
    UInt64.lt_iff_toNat_lt, ← Int64.toInt_inj, ← UInt32.toNat_inj]
  omega

/-- The time stamp; seconds count first, then milliseconds, then the serial number. -/
def EventId.stamp (e : EventId) : Int ×ₗ Nat ×ₗ Nat :=
  toLex (e.sec.toInt, toLex (e.milli.toNat, e.serial.toNat))

theorem EventId.stamp_le_iff {e₁ e₂ : EventId} : e₁.stamp ≤ e₂.stamp ↔ e₁.later e₂ = false := by
  rw [later_eq_false_iff, stamp, stamp, Prod.Lex.toLex_le_toLex, Prod.Lex.toLex_le_toLex]

theorem EventId.laterOrder : Slots.LaterOrder EventId.later where
  irrefl a := by
    rw [later_eq_false_iff]
    omega
  trans a b c hab hbc := by
    rw [later_eq_false_iff] at hab hbc ⊢
    omega
  asymm a b h := by
    rw [← Bool.not_eq_false, later_eq_false_iff] at h
    rw [later_eq_false_iff]
    omega

end LibAudit.Records
