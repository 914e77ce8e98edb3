import LibAudit.Lib.Number
import LibAudit.Tables.MsgType

/-!
# Rules

A rule for the kernel: the list it is on, what to do, a mask of system calls, and fields to compare.
`audit_rule_data` has the fields in arrays; a field here is one place of all of them, together with its
part of the buffer if it is a string.

The tables that come with the sources are written out.  What depends on the machine is in `Env`: its
system calls and error numbers, with names that are inverse to the numbers, its users and groups, and
what the kernel supports.
-/

namespace LibAudit.Rules

/-! ## Fields -/

/-- Fields that are numbers. -/
inductive NumField where
  | pid | uid | euid | suid | fsuid | gid | egid | sgid | fsgid | loginuid | pers | arch | msgtype
  | ppid | sessionid | devmajor | devminor | inode | exit | success | perm | filetype | fstype
  | objUid | objGid | fieldCompare | arg0 | arg1 | arg2 | arg3 | saddrFam
  deriving DecidableEq

/-- Fields that are strings. -/
inductive StrField where
  | subjUser | subjRole | subjType | subjSen | subjClr
  | objUser | objRole | objType | objLevLow | objLevHigh
  | watch | dir | filterkey | exe
  deriving DecidableEq

/-- `AUDIT_PID` and so on. -/
inductive FieldName where
  | num (f : NumField)
  | str (f : StrField)
  deriving DecidableEq

/-- `fieldtab.h`. -/
def fieldTab : List (FieldName × Bytes) := [
  (.num .pid, ascii "pid"), (.num .uid, ascii "uid"), (.num .euid, ascii "euid"),
  (.num .suid, ascii "suid"), (.num .fsuid, ascii "fsuid"), (.num .gid, ascii "gid"),
  (.num .egid, ascii "egid"), (.num .sgid, ascii "sgid"), (.num .fsgid, ascii "fsgid"),
  (.num .loginuid, ascii "auid"), (.num .loginuid, ascii "loginuid"), (.num .pers, ascii "pers"),
  (.num .arch, ascii "arch"), (.num .msgtype, ascii "msgtype"), (.str .subjUser, ascii "subj_user"),
  (.str .subjRole, ascii "subj_role"), (.str .subjType, ascii "subj_type"),
  (.str .subjSen, ascii "subj_sen"), (.str .subjClr, ascii "subj_clr"), (.num .ppid, ascii "ppid"),
  (.str .objUser, ascii "obj_user"), (.str .objRole, ascii "obj_role"),
  (.str .objType, ascii "obj_type"), (.str .objLevLow, ascii "obj_lev_low"),
  (.str .objLevHigh, ascii "obj_lev_high"), (.num .sessionid, ascii "sessionid"),
  (.num .devmajor, ascii "devmajor"), (.num .devminor, ascii "devminor"), (.num .inode, ascii "inode"),
  (.num .exit, ascii "exit"), (.num .success, ascii "success"), (.str .watch, ascii "path"),
  (.num .perm, ascii "perm"), (.str .dir, ascii "dir"), (.num .filetype, ascii "filetype"),
  (.num .fstype, ascii "fstype"), (.num .objUid, ascii "obj_uid"), (.num .objGid, ascii "obj_gid"),
  (.num .fieldCompare, ascii "field_compare"), (.num .arg0, ascii "a0"), (.num .arg1, ascii "a1"),
  (.num .arg2, ascii "a2"), (.num .arg3, ascii "a3"), (.str .filterkey, ascii "key"),
  (.str .exe, ascii "exe"), (.num .saddrFam, ascii "saddr_fam")]

/-- `audit_name_to_field`. -/
def auditNameToField (name : Bytes) : Option FieldName :=
  (fieldTab.find? fun e => e.2 == name.map downcase).map Prod.fst

/-- `AUDIT_EQUAL` and so on. -/
inductive Op where
  | equal | notEqual | greaterThan | greaterThanOrEqual | lessThan | lessThanOrEqual
  | bitMask | bitTest
  deriving DecidableEq

/-- `audit_operator_to_symbol`. -/
def Op.symbol : Op → Bytes
  | .equal => ascii "="
  | .notEqual => ascii "!="
  | .greaterThan => ascii ">"
  | .greaterThanOrEqual => ascii ">="
  | .lessThan => ascii "<"
  | .lessThanOrEqual => ascii "<="
  | .bitMask => ascii "&"
  | .bitTest => ascii "&="

/-- A field of a rule: what is compared, how, and with what. -/
inductive Field where
  | num (f : NumField) (op : Op) (value : UInt32)
  | str (f : StrField) (op : Op) (text : Bytes)
  deriving DecidableEq

/-- `rule->fields[i]`. -/
def Field.name : Field → FieldName
  | .num f _ _ => .num f
  | .str f _ _ => .str f

/-- `rule->fieldflags[i]`. -/
def Field.op : Field → Op
  | .num _ op _ => op
  | .str _ op _ => op

/-! ## Lists, actions and masks -/

/-- `AUDIT_FILTER_TASK` and so on. -/
inductive FilterList where
  | task | exit | user | exclude | filesystem
  deriving DecidableEq

/-- `audit_flag_to_name`. -/
def FilterList.name : FilterList → Bytes
  | .task => ascii "task"
  | .exit => ascii "exit"
  | .user => ascii "user"
  | .exclude => ascii "exclude"
  | .filesystem => ascii "filesystem"

/-- `AUDIT_NEVER` and `AUDIT_ALWAYS`; `AUDIT_POSSIBLE` is no longer accepted. -/
inductive Action where
  | never | always
  deriving DecidableEq

/-- `AUDIT_BITMASK_SIZE * 32`. -/
abbrev maskBits : Nat := 64 * 32

/-! ## Machines -/

/-- `MACH_X86` and so on, without ARM. -/
inductive Machine where
  | x86 | x86_64 | ppc64 | ppc64le | ppc | s390x | s390
  deriving DecidableEq

/-- `machinetab.h`. -/
def machineTab : List (Bytes × Machine) := [
  (ascii "i386", .x86), (ascii "i486", .x86), (ascii "i586", .x86), (ascii "i686", .x86),
  (ascii "x86_64", .x86_64), (ascii "ppc64", .ppc64), (ascii "ppc64le", .ppc64le),
  (ascii "ppc", .ppc), (ascii "s390x", .s390x), (ascii "s390", .s390)]

/-- `audit_name_to_machine`. -/
def auditNameToMachine (name : Bytes) : Option Machine :=
  (machineTab.find? fun e => e.1 == name.map downcase).map Prod.snd

/-- `audit_machine_to_elf`. -/
def auditMachineToElf : Machine → UInt32
  | .x86 => 0x40000003
  | .x86_64 => 0xC000003E
  | .ppc64 => 0x80000015
  | .ppc64le => 0xC0000015
  | .ppc => 0x14
  | .s390x => 0x80000016
  | .s390 => 0x16

/-- All machines of `elftab`, in its order. -/
def machines : List Machine := [.x86, .x86_64, .ppc64, .ppc64le, .ppc, .s390x, .s390]

/-- `audit_elf_to_machine`. -/
def auditElfToMachine (elf : UInt32) : Option Machine :=
  machines.find? fun m => auditMachineToElf m == elf

/-! ## The machine at hand -/

/-- What the tools ask the machine. -/
structure Env where
  /-- `audit_detect_machine`. -/
  detectMachine : Option Machine
  /-- `audit_get_features`, for `AUDIT_FEATURE_BITMAP_EXCLUDE_EXTEND`. -/
  excludeExtend : Bool
  /-- The same for `AUDIT_FEATURE_BITMAP_FILTER_FS`. -/
  filterFs : Bool
  /-- The same for `AUDIT_FEATURE_BITMAP_EXECUTABLE_PATH`. -/
  executablePath : Bool
  /-- The same for `AUDIT_FEATURE_BITMAP_SESSIONID_FILTER`. -/
  sessionidFilter : Bool
  /-- `audit_name_to_uid`. -/
  nameToUid : Bytes → Option UInt32
  /-- `audit_name_to_gid`. -/
  nameToGid : Bytes → Option UInt32
  /-- `err_s2i`. -/
  nameToErrno : Bytes → Option Nat
  /-- `audit_name_to_syscall`. -/
  nameToSyscall : Bytes → Machine → Option Nat
  /-- `stat` succeeds, and finds a directory. -/
  isDir : Bytes → Bool

end LibAudit.Rules
