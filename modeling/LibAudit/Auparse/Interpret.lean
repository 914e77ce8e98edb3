import LibAudit.Auparse.Record
import LibAudit.Lib.Number
import Mathlib.Data.List.Infix
import Mathlib.Data.UInt

/-!
# Interpreting users, groups, system calls, machines and addresses: `interpret.c`

The interpretation of these fields depends on databases and tables (`Lookups`), on the value of the
field, and for a system call and a machine also on other fields of the record, which count only in the
places where the kernel puts them (`idata`).

A record that the daemon has enriched carries interpretations with it, behind a separator.  They are
loaded into a list (`loadInterpretationList`), and a field whose name is in the list is not looked up
(`doInterpretation`).

Only the field types above are modelled, because only these are ever in the list.  What
`print_sockaddr` writes behind the name of the family is a parameter.
-/

namespace LibAudit.Auparse

/-! ## Kinds of fields -/

/-- The types of fields that the daemon enriches. -/
inductive Kind where
  | uid | gid | syscall | arch | sockaddr
  deriving DecidableEq

/-- A user or a group. -/
def Kind.isId : Kind → Bool
  | uid | gid => true
  | _ => false

/-- `typetab.h`, for these types. -/
def typeTable : List (String × Kind) := [
  ("auid", .uid), ("uid", .uid), ("euid", .uid), ("suid", .uid), ("fsuid", .uid), ("ouid", .uid),
  ("oauid", .uid), ("old-auid", .uid), ("iuid", .uid), ("id", .uid), ("inode_uid", .uid),
  ("sauid", .uid), ("obj_uid", .uid), ("obj_gid", .gid), ("gid", .gid), ("egid", .gid),
  ("sgid", .gid), ("fsgid", .gid), ("ogid", .gid), ("igid", .gid), ("inode_gid", .gid),
  ("new_gid", .gid), ("syscall", .syscall), ("arch", .arch), ("saddr", .sockaddr)]

/-- `lookup_type`. -/
def lookupType (name : Bytes) : Option Kind :=
  (typeTable.find? fun entry => ascii entry.1 == name).map (·.2)

/-- `AUDIT_ADD_GROUP`, `AUDIT_DEL_GROUP` and `AUDIT_GRP_MGMT`. -/
def groupTypes : List Int := [1116, 1117, 1132]

/-- `AUDIT_TRUSTED_APP`. -/
def auditTrustedApp : Int := 1121

/-- `AUDIT_EXECVE`. -/
def auditExecve : Int := 1309

/-- `AUDIT_NETFILTER_PKT`. -/
def auditNetfilterPkt : Int := 1324

/-- `auparse_interp_adjust_type`. -/
def interpAdjustType (rtype : Int) (name : Bytes) : Option Kind :=
  if rtype = auditExecve ∧ name.head? = some 97 ∧ name ≠ ascii "argc" ∧ ¬ ascii "_len" <:+: name then
    none
  else if rtype = Parser.auditAvc ∧ name = ascii "saddr" then none
  else if rtype = auditNetfilterPkt ∧ name = ascii "saddr" then none
  else if name = ascii "id" ∧ rtype ∈ groupTypes then some .gid
  else if rtype = auditTrustedApp then none
  else lookupType name

/-! ## Printing -/

/-- The databases and tables at one time. -/
structure Lookups where
  /-- `getpwuid`. -/
  user : UInt32 → Option Bytes
  /-- `getgrgid`. -/
  group : UInt32 → Option Bytes
  /-- `audit_elf_to_machine`. -/
  elfToMachine : UInt32 → Option Nat
  /-- `audit_machine_to_name`. -/
  machineToName : Nat → Option Bytes
  /-- `audit_detect_machine`. -/
  detectMachine : Option Nat
  /-- `audit_syscall_to_name`. -/
  syscallToName : Int32 → Nat → Option Bytes
  /-- `sock_i2s`. -/
  sock : UInt64 → Option Bytes
  /-- `ipc_i2s`. -/
  ipc : UInt64 → Option Bytes
  /-- `fam_i2s`. -/
  fam : Nat → Option Bytes
  /-- What is written of an address behind its family. -/
  address : Bytes → Bytes

/-- What is known of a field and its record. -/
structure Idata where
  /-- `none` if it is negative. -/
  machine : Option Nat
  syscall : Int32
  a0 : UInt64
  val : Bytes

/-- `print_uid` and `print_gid`. -/
def printId (lookup : UInt32 → Option Bytes) (val : Bytes) : Bytes :=
  match strtoul val with
  | none => ascii "conversion error(" ++ val ++ ascii ")"
  | some n =>
    let id := n.toUInt32
    if id = -1 then ascii "unset"
    else if id = 0 then ascii "root"
    else
      match lookup id with
      | some name => name.take 63
      | none => ascii "unknown(" ++ printInt id.toInt32.toInt ++ ascii ")"

/-- `MACH_AARCH64`. -/
def machAarch64 : Nat := 9

/-- The second part of `print_arch`, when the machine is known or not. -/
def printMachine (L : Lookups) (val : Bytes) : Option Nat → Bytes
  | none => ascii "unknown-elf-type(" ++ val ++ ascii ")"
  | some machine =>
    match L.machineToName machine with
    | some name => name
    | none => ascii "unknown-machine-type(" ++ printNat 10 machine ++ ascii ")"

/-- `print_arch`. -/
def printArch (L : Lookups) (id : Idata) : Bytes :=
  match id.machine.filter (· ≤ machAarch64) with
  | some machine => printMachine L id.val (some machine)
  | none =>
    match strtoulIn 16 id.val with
    | none => ascii "conversion error(" ++ id.val ++ ascii ") "
    | some n => printMachine L id.val (L.elfToMachine n.toUInt32)

/-- The value of an argument as an `int`, if it is one. -/
def asInt (f : UInt64 → Option Bytes) (a0 : UInt64) : Option Bytes :=
  if a0 < 2 ^ 31 ∨ -(2 ^ 31) ≤ a0 then f a0 else none

/-- `print_syscall`. -/
def printSyscall (L : Lookups) (id : Idata) : Bytes :=
  match id.machine.or L.detectMachine with
  | none => id.val
  | some machine =>
    match L.syscallToName id.syscall machine with
    | none => ascii "unknown-syscall(" ++ printInt id.syscall.toInt ++ ascii ")"
    | some sys =>
      let func :=
        if sys = ascii "socketcall" then asInt L.sock id.a0
        else if sys = ascii "ipc" then asInt L.ipc id.a0
        else none
      match func with
      | some func => sys ++ ascii "(" ++ func ++ ascii ")"
      | none => sys

/-- The bytes of a socket address. -/
def hostBytes (val : Bytes) : Option Bytes :=
  if val.head? = some 40 then
    if val.contains 41 then some (val.takeWhile (· != 41) ++ [41]) else none
  else
    let str := val.takeWhile isXDigit
    if str.length < 2 then none else some (hexDecode str)

/-- `sa_family`. -/
def saFamily (host : Bytes) : Nat := (host.getD 0 0).toNat + 256 * (host.getD 1 0).toNat

/-- `print_sockaddr`. -/
def printSockaddr (L : Lookups) (val : Bytes) : Bytes :=
  match hostBytes val with
  | none => ascii "malformed-host(" ++ val ++ ascii ")"
  | some host =>
    match L.fam (saFamily host) with
    | none => ascii "unknown-family(" ++ printNat 10 (saFamily host) ++ ascii ")"
    | some str => ascii "\x7b saddr_fam=" ++ str ++ 32 :: (L.address val ++ ascii " \x7d")

/-- A field that is looked up. -/
def printField (L : Lookups) (kind : Kind) (id : Idata) : Bytes :=
  match kind with
  | .uid => printId L.user id.val
  | .gid => printId L.group id.val
  | .syscall => printSyscall L id
  | .arch => printArch L id
  | .sockaddr => printSockaddr L id.val

/-! ## The list -/

/-- What follows the separator of an enriched record. -/
def interpPart (record : Bytes) : Option Bytes :=
  if record.contains interpSeparator then
    some ((record.dropWhile (· != interpSeparator)).drop 1)
  else none

/-- A word with an equal sign, as a name in lower case and a value. -/
def nameAndValue (word : Bytes) : Option (Bytes × Bytes) :=
  if word.contains 61 then
    some ((word.takeWhile (· != 61)).map downcase, (word.dropWhile (· != 61)).drop 1)
  else none

/-- What a text has from its first brace on. -/
def fromBrace (s : Bytes) : Bytes := s.dropWhile (· != 123)

/-- `load_interpretation_list`. -/
def loadInterpretationList : Option Bytes → List (Bytes × Bytes)
  | none => []
  | some buf =>
    if (ascii "SADDR=").isPrefixOf buf then
      -- a socket address has blanks, so it is taken to be the only value
      let val := fromBrace (buf.drop 6)
      if val.contains 125 then [(ascii "saddr", val)] else []
    else (words 32 buf).filterMap nameAndValue

/-- `auparse_do_interpretation`, without escaping. -/
def doInterpretation (L : Lookups) (il : List (Bytes × Bytes)) (kind : Kind) (name : Bytes)
    (id : Idata) : CString :=
  cstr <|
    match il.find? (·.1 == name) with
    | some (_, val) =>
      -- something the daemon did not know is tried again
      if (ascii "unknown-").isPrefixOf val then printField L kind id
      else if kind.isId then printEscaped val
      else val
    | none => printField L kind id

/-! ## Records -/

/-- The value of the field in a place, if it has the name. -/
def fieldAt (nv : List Field) (name : String) (i : Nat) : Option Bytes :=
  nv[i]?.bind fun f => if f.name = some (ascii name) then some f.val else none

/-- The places are counted from behind the node. -/
def nodeOffset (nv : List Field) : Nat := if (fieldAt nv "node" 0).isSome then 1 else 0

/-- The value that `parse_up_record` finds in one of two places; the second is that of a seccomp
record. -/
def fieldOfTwo (nv : List Field) (name : String) (i j : Nat) : Option Bytes :=
  (fieldAt nv name (j + nodeOffset nv)).or (fieldAt nv name (i + nodeOffset nv))

/-- `r->machine`. -/
def recordMachine (L : Lookups) (nv : List Field) : Option Nat := do
  let val ← fieldOfTwo nv "arch" 1 10
  let elf ← strtoulIn 16 val
  L.elfToMachine elf.toUInt32

/-- `r->syscall`. -/
def recordSyscall (nv : List Field) : Int32 :=
  (((fieldOfTwo nv "syscall" 2 11).bind strtoul).map (·.toUInt32.toInt32)).getD (-1)

/-- `r->a0`. -/
def recordA0 (nv : List Field) : UInt64 :=
  match fieldAt nv "a0" (5 + nodeOffset nv) with
  | none => 0
  | some val => (strtoulIn 16 val).getD (-1)

/-- The data for the interpretation of a value. -/
def idata (L : Lookups) (nv : List Field) (val : Bytes) : Idata :=
  ⟨recordMachine L nv, recordSyscall nv, recordA0 nv, val⟩

/-- A field of a kind that the daemon enriches. -/
structure Enrichable where
  kind : Kind
  name : Bytes
  val : Bytes
  deriving DecidableEq

/-- The field as one of these, if it is. -/
def Field.enrichable (rtype : Int) (f : Field) : Option Enrichable := do
  let name ← f.name
  let kind ← interpAdjustType rtype name
  some ⟨kind, name, f.val⟩

/-- The fields of a record that the daemon enriches. -/
def Parser.enrichables (p : Parser) : List Enrichable := p.nv.filterMap (·.enrichable p.type)

end LibAudit.Auparse
