import LibAudit.Rules.Fields

/-!
# What fields and system calls are read as

`audit_rule_fieldpair_data` and its neighbours in `libaudit.c` add one field or system call to a rule.
Here is what they make of their arguments, and what they refuse; how a rule is written to memory is in
`Rules.Data`.
-/

namespace LibAudit.Rules

open Tables

/-! ## Fields -/

/-- The codes of `errormsg.h` that adding a field can return. -/
inductive FieldError where
  | opMissing | fieldUnknown | archMisplaced | exitOnly | msgTypeUnknown | elfUnknown | opEq
  | permRwxa | errUnknown | filetypeUnknown | fieldValNum | fieldTooMany | opEqNotEq | strTooLong
  | msgTypeCredExclude | msgTypeExcludeUser | keyDep | fieldValMissing | fieldName
  | compFieldName | compVal | compFieldUnknown | compValUnknown | compIncompat
  | fieldUnavail | filterNoSupport | fstypeUnknown | fieldNoSupport | fieldNoFilter | fieldValTooBig
  | printNothing | filterMissing
  deriving DecidableEq

/-- `strstr(s, pat)`: what is before and what is behind the first place where `pat` occurs. -/
def strstr (pat : Bytes) : Bytes → Option (Bytes × Bytes)
  | [] => none
  | c :: s =>
    if pat.isPrefixOf (c :: s) then some ([], (c :: s).drop pat.length)
    else (strstr pat s).map fun (before, behind) => (c :: before, behind)

/-- The operators in the order in which they are looked for, those of two characters first. -/
def opOrder : List Op := [.notEqual, .greaterThanOrEqual, .lessThanOrEqual, .bitTest, .equal,
  .greaterThan, .lessThan, .bitMask]

/-- The name, the operator and the value of a pair. -/
def splitPair (pair : Bytes) : Option (Op × Bytes × Bytes) :=
  opOrder.findSome? fun op => (strstr op.symbol pair).map fun (f, v) => (op, f, v)

theorem strstr_eq {pat s before behind : Bytes} (h : strstr pat s = some (before, behind)) :
    s = before ++ pat ++ behind := by
  induction s generalizing before with
  | nil => cases h
  | cons c s ih =>
    rw [strstr] at h
    split at h
    · rename_i hpre
      cases h
      exact List.prefix_iff_eq_append.mp (List.isPrefixOf_iff_prefix.mp hpre) |>.symm
    · obtain ⟨⟨before', behind'⟩, hrest, heq⟩ := Option.map_eq_some_iff.mp h
      cases heq
      rw [ih hrest]
      rfl

/-- A pair is its parts. -/
theorem splitPair_eq {pair f v : Bytes} {op : Op} (h : splitPair pair = some (op, f, v)) :
    pair = f ++ op.symbol ++ v := by
  obtain ⟨op', -, hop⟩ := List.exists_of_findSome?_eq_some h
  obtain ⟨⟨f', v'⟩, hstr, heq⟩ := Option.map_eq_some_iff.mp hop
  cases heq
  exact strstr_eq hstr

/-- What has been given so far. -/
structure Given where
  /-- `_audit_syscalladded`. -/
  syscall : Bool
  /-- `_audit_permadded`. -/
  perm : Bool
  /-- `_audit_exeadded`. -/
  exe : Bool
  /-- `_audit_filterfsadded`. -/
  filterfs : Bool
  /-- `_audit_archadded`. -/
  arch : Bool
  /-- `_audit_elf`. -/
  elf : UInt32

/-- A conversion to `uint32_t`. -/
def toU32 (n : Int) : UInt32 := UInt32.ofNat (n % 2 ^ 32).toNat

/-- `strtoul(v, NULL, 0)`, in 32 bits. -/
def unsigned (v : Bytes) : UInt32 := ((strtoulIn 0 v).getD (0 - 1)).toUInt32

/-- `strtol(v, NULL, 0)`, in 32 bits. -/
def signed (v : Bytes) : UInt32 := toU32 (strtolIn 0 v)

/-- `isdigit(*v)`. -/
def startsDigit (v : Bytes) : Bool := (v.head?.map isDigit).getD false

/-- A minus sign and a digit. -/
def startsNegative (v : Bytes) : Bool := v.head? == some 45 && startsDigit v.tail

/-- Letters of permissions: `AUDIT_PERM_READ`, `AUDIT_PERM_WRITE`, `AUDIT_PERM_EXEC` and
`AUDIT_PERM_ATTR`. -/
def permBit (c : UInt8) : Option UInt32 :=
  match downcase c with
  | 114 => some 4
  | 119 => some 2
  | 120 => some 1
  | 97 => some 8
  | _ => none

/-- The value of letters of permissions. -/
def permBits (letters : Bytes) : Option UInt32 :=
  letters.foldlM (fun val c => (permBit c).map (val ||| ·)) 0

/-- `ftypetab.h`. -/
def ftypeTab : List (Bytes × UInt32) := [(ascii "socket", 0o140000), (ascii "link", 0o120000),
  (ascii "file", 0o100000), (ascii "block", 0o060000), (ascii "dir", 0o040000),
  (ascii "character", 0o020000), (ascii "fifo", 0o010000)]

/-- `fstypetab.h`. -/
def fstypeTab : List (Bytes × UInt32) :=
  [(ascii "tracefs", 0x74726163), (ascii "debugfs", 0x64626720)]

/-- A lookup in a table of lower case names. -/
def lookupName (table : List (Bytes × UInt32)) (name : Bytes) : Option UInt32 :=
  (table.find? fun e => e.1 == name.map downcase).map Prod.snd

/-- `AF_MAX`. -/
def afMax : UInt32 := 46

/-- `audit_determine_machine`. -/
def auditDetermineMachine (env : Env) (arch : Bytes) : Option Machine :=
  if arch.map downcase = ascii "b64" then
    match env.detectMachine with
    | some .x86 | some .ppc | some .s390 => none
    | machine => machine
  else if arch.map downcase = ascii "b32" then
    match env.detectMachine with
    | some .x86_64 => some .x86
    | some .ppc64 => some .ppc
    | some .s390x => some .s390
    | some .ppc64le => none
    | machine => machine
  else
    match auditNameToMachine arch with
    | some machine => some machine
    | none => (strtoulIn 16 arch).bind fun elf => auditElfToMachine elf.toUInt32

/-- The cases of the `switch` in `audit_rule_fieldpair_data` for numbers. -/
inductive NumKind where
  | user | group | exit | msgtype | arch | perm | filetype | fstype | arg | session | saddrFam
  /-- The default, for some fields on the exit list only. -/
  | number (exitOnly : Bool)
  | inode
  deriving DecidableEq

/-- The case for a field. -/
def NumField.kind : NumField → NumKind
  | .uid | .euid | .suid | .fsuid | .loginuid | .objUid => .user
  | .gid | .egid | .sgid | .fsgid | .objGid => .group
  | .exit => .exit
  | .msgtype => .msgtype
  | .arch => .arch
  | .perm => .perm
  | .filetype => .filetype
  | .fstype => .fstype
  | .arg0 | .arg1 | .arg2 | .arg3 => .arg
  | .sessionid => .session
  | .saddrFam => .saddrFam
  | .devmajor | .devminor | .success | .ppid => .number true
  | .inode => .inode
  | .pid | .pers | .fieldCompare => .number false

/-- The value of a field that is a number.  A session that is no number leaves what was there. -/
def parseNum (env : Env) (flags : FilterList) (given : Given) (op : Op) (v : Bytes) (old : UInt32) :
    NumKind → Except FieldError UInt32
  | .user =>
    if startsDigit v then .ok (unsigned v)
    else if startsNegative v then .ok (signed v)
    else if v = ascii "unset" then .ok 4294967295
    else (env.nameToUid v).elim (.error .printNothing) .ok
  | .group =>
    if startsDigit v then .ok (signed v) else (env.nameToGid v).elim (.error .printNothing) .ok
  | .exit =>
    if flags ≠ .exit then .error .exitOnly
    else if startsDigit v || startsNegative v then .ok (signed v)
    else
      let minus := v.head? == some 45
      match env.nameToErrno (if minus then v.tail else v) with
      | none | some 0 => .error .errUnknown
      | some n => .ok (toU32 (if minus then -(n : Int) else n))
  | .msgtype =>
    if flags ≠ .exclude ∧ flags ≠ .user then .error .msgTypeExcludeUser
    else if startsDigit v then .ok (signed v)
    else if 0 < auditNameToMsgType v then .ok (toU32 (auditNameToMsgType v))
    else .error .msgTypeUnknown
  | .arch =>
    if given.syscall then .error .archMisplaced
    else if op ≠ .notEqual ∧ op ≠ .equal then .error .opEqNotEq
    else if startsDigit v then
      match strtoulIn 0 v with
      | none => .error .elfUnknown
      | some elf =>
        if (auditElfToMachine elf.toUInt32).isSome then .ok elf.toUInt32 else .error .elfUnknown
    else ((auditDetermineMachine env v).map auditMachineToElf).elim (.error .elfUnknown) .ok
  | .perm =>
    if flags ≠ .exit then .error .exitOnly
    else if op ≠ .equal then .error .opEq
    else if 4 < v.length then .error .strTooLong
    else (permBits v).elim (.error .permRwxa) .ok
  | .filetype =>
    if flags ≠ .exit then .error .exitOnly
    else (lookupName ftypeTab v).elim (.error .filetypeUnknown) .ok
  | .fstype =>
    if flags ≠ .filesystem then .error .fieldUnavail
    else if op ≠ .notEqual ∧ op ≠ .equal then .error .opEqNotEq
    else
      let value := if startsDigit v then unsigned v else (lookupName fstypeTab v).getD (0 - 1)
      if value = 0 - 1 then .error .fstypeUnknown else .ok value
  | .arg =>
    if startsDigit v then .ok (unsigned v)
    else if startsNegative v then .ok (signed v)
    else .error .fieldValNum
  | .session =>
    if env.sessionidFilter = false then .error .fieldNoSupport
    else if flags ≠ .exclude ∧ flags ≠ .user ∧ flags ≠ .exit then .error .fieldNoFilter
    else if startsDigit v then .ok (unsigned v)
    else if startsNegative v then .ok (signed v)
    else if v = ascii "unset" then .ok 4294967295
    else .ok old
  | .saddrFam => if unsigned v < afMax then .ok (unsigned v) else .error .fieldValTooBig
  | .number exitOnly =>
    if exitOnly = true ∧ flags ≠ .exit then .error .exitOnly
    else if startsDigit v then .ok (signed v)
    else .error .fieldValNum
  | .inode =>
    if flags ≠ .exit then .error .exitOnly
    else if op ≠ .notEqual ∧ op ≠ .equal then .error .opEqNotEq
    else if startsDigit v then .ok (unsigned v)
    else .error .fieldValNum

/-- `PATH_MAX`. -/
def pathMax : Nat := 4096

/-- `AUDIT_MAX_KEY_LEN`. -/
def maxKeyLen : Nat := 256

/-- `AUDIT_MAX_FIELDS`. -/
def maxFields : Nat := 64

/-- Strings of the object, and of files: for the exit list only. -/
def StrField.exitOnly : StrField → Bool
  | .objUser | .objRole | .objType | .objLevLow | .objLevHigh | .watch | .dir => true
  | _ => false

/-- A key needs something to go with. -/
def Given.allowsKey (given : Given) : Bool :=
  given.syscall || given.perm || given.exe || given.filterfs

/-- What is given with a field that is a string. -/
def Given.addStr (given : Given) : StrField → Given
  | .watch | .dir => { given with perm := true }
  | .exe => { given with exe := true }
  | _ => given

/-- The checks on a field that is a string of `vlen` bytes. -/
def checkStr (env : Env) (flags : FilterList) (given : Given) (op : Op) (vlen : Int) (f : StrField) :
    Except FieldError Unit :=
  if f.exitOnly = true ∧ flags ≠ .exit then .error .exitOnly
  else if f = .exe ∧ env.executablePath = false then .error .fieldNoSupport
  else if f = .exe ∧ op ≠ .notEqual ∧ op ≠ .equal then .error .opEqNotEq
  else if f = .filterkey ∧ given.allowsKey = false then .error .keyDep
  else if f = .filterkey ∧ maxKeyLen < vlen then .error .strTooLong
  else if pathMax < vlen then .error .strTooLong
  else .ok ()

/-- What is given with a field that is a number. -/
def Given.addNum (given : Given) (f : NumField) (value : UInt32) : Given :=
  match f with
  | .arch => { given with elf := value, arch := true }
  | .fstype => { given with filterfs := true }
  | _ => given

/-- Fields that the exclude list admits if the kernel supports more than message types there. -/
def excludeFields : List FieldName := [.num .pid, .num .uid, .num .gid, .num .loginuid, .num .msgtype,
  .str .subjUser, .str .subjRole, .str .subjType, .str .subjSen, .str .subjClr, .str .exe]

/-- The checks on the list, which come first. -/
def checkList (env : Env) (flags : FilterList) (f : FieldName) : Except FieldError Unit :=
  match flags with
  | .exclude =>
    if env.excludeExtend = false then
      if f = .num .msgtype then .ok () else .error .fieldNoSupport
    else if f ∈ excludeFields then .ok () else .error .msgTypeCredExclude
  | .filesystem => if env.filterFs then .ok () else .error .filterNoSupport
  | _ => .ok ()

/-- The name, the operator and the value of a pair, if the list admits the field. -/
def fieldpairHead (env : Env) (fieldCount : Nat) (pair : Bytes) (flags : FilterList) :
    Except FieldError (FieldName × Op × Bytes) :=
  if maxFields - 1 ≤ fieldCount then .error .fieldTooMany
  else match splitPair pair with
    | none => .error .opMissing
    | some (op, f, v) =>
      if f = [] then .error .fieldName
      else if v = [] then .error .fieldValMissing
      else match auditNameToField f with
        | none => .error .fieldUnknown
        | some name => (checkList env flags name).map fun () => (name, op, v)

theorem fieldpairHead_ok {env : Env} {n : Nat} {pair v : Bytes} {flags : FilterList}
    {name : FieldName} {op : Op} (h : fieldpairHead env n pair flags = .ok (name, op, v)) :
    n < 63 ∧ ∃ f, splitPair pair = some (op, f, v) ∧ auditNameToField f = some name := by
  rw [fieldpairHead] at h
  split at h
  · cases h
  · rename_i hn
    refine ⟨by simpa [maxFields] using hn, ?_⟩
    split at h
    · cases h
    · rename_i op' f v' hsplit
      split at h
      · cases h
      · split at h
        · cases h
        · split at h
          · cases h
          · rename_i name' hname
            cases hlist : checkList env flags name' with
            | error e => rw [hlist] at h; cases h
            | ok u =>
              rw [hlist] at h
              cases h
              exact ⟨f, hsplit, hname⟩

/-- `AUDIT_COMPARE_UID_TO_OBJ_UID` and so on. -/
def compareTab : List (NumField × NumField × UInt32) := [
  (.uid, .objUid, 1), (.gid, .objGid, 2), (.euid, .objUid, 3), (.egid, .objGid, 4),
  (.loginuid, .objUid, 5), (.suid, .objUid, 6), (.sgid, .objGid, 7), (.fsuid, .objUid, 8),
  (.fsgid, .objGid, 9), (.uid, .loginuid, 10), (.uid, .euid, 11), (.uid, .fsuid, 12),
  (.uid, .suid, 13), (.loginuid, .fsuid, 14), (.loginuid, .suid, 15), (.loginuid, .euid, 16),
  (.euid, .suid, 17), (.euid, .fsuid, 18), (.suid, .fsuid, 19), (.gid, .egid, 20),
  (.gid, .fsgid, 21), (.gid, .sgid, 22), (.egid, .fsgid, 23), (.egid, .sgid, 24),
  (.sgid, .fsgid, 25)]

/-- The value for two fields, in either order. -/
def compareValue (f₁ f₂ : FieldName) : Option UInt32 :=
  (compareTab.find? fun (a, b, _) =>
    (.num a == f₁ && .num b == f₂) || (.num b == f₁ && .num a == f₂)).map (·.2.2)

/-- The fields of a comparison and its operator. -/
def compHead (fieldCount : Nat) (pair : Bytes) (flags : Option FilterList) :
    Except FieldError (FieldName × FieldName × Op) :=
  if maxFields - 1 ≤ fieldCount then .error .fieldTooMany
  else match [Op.notEqual, Op.equal].findSome? fun op =>
      (strstr op.symbol pair).map fun (f, v) => (op, f, v) with
    | none => .error .opEqNotEq
    | some (op, f, v) =>
      if f = [] then .error .compFieldName
      else if v = [] then .error .compVal
      else match auditNameToField f, auditNameToField v with
        | none, _ => .error .compFieldUnknown
        | some _, none => .error .compValUnknown
        | some f₁, some f₂ => if flags = some .exit then .ok (f₁, f₂, op) else .error .exitOnly

/-! ## System calls -/

/-- The mask after `audit_rule_syscallbyname_data`, if it does not fail. -/
def syscallbyname (env : Env) (elf : UInt32) (mask : BitVec maskBits) (scall : Bytes) :
    Option (BitVec maskBits) :=
  if scall = ascii "all" then some (BitVec.allOnes maskBits)
  else do
    let machine ← if elf = 0 then env.detectMachine else auditElfToMachine elf
    let nr : Int ← match env.nameToSyscall scall machine with
      | some nr => some (nr : Int)
      | none => if startsDigit scall then some ((strtolIn 0 scall).bmod (2 ^ 32)) else none
    if 0 ≤ nr ∧ nr < maskBits then some (mask ||| BitVec.twoPow maskBits nr.toNat) else none

end LibAudit.Rules
