import LibAudit.Lib.Hoare
import LibAudit.Lib.Memory
import LibAudit.Rules.Build
import Mathlib.Data.UInt

/-!
# Rules in memory

`audit_rule_data` is three arrays with a place for each field, and behind them a buffer with the
strings of the fields, one after the other.  The value of a field that is a string is the length of the
string; where the string starts is not recorded anywhere.  Whoever reads a rule goes through its fields
and adds up the lengths.

The functions of `libaudit.c` that write to a rule are programs that can fail, and what they have
written until then stays: a field's number, operator and sometimes its value are in place before the
last check is made.  The two loops of `auditctl-listing.c` that read strings are `walk`, each with its
own test for fields that are strings.

`Builder.made` is not in the sources.  It is the list of the fields that calls have added, with their
strings as they were passed.
-/

namespace LibAudit.Rules

open Memory Function

/-! ## Numbers -/

/-- `AUDIT_PID` and so on. -/
def NumField.code : NumField → UInt32
  | .pid => 0 | .uid => 1 | .euid => 2 | .suid => 3 | .fsuid => 4
  | .gid => 5 | .egid => 6 | .sgid => 7 | .fsgid => 8 | .loginuid => 9
  | .pers => 10 | .arch => 11 | .msgtype => 12 | .ppid => 18 | .sessionid => 25 | .fstype => 26
  | .devmajor => 100 | .devminor => 101 | .inode => 102 | .exit => 103 | .success => 104
  | .perm => 106 | .filetype => 108 | .objUid => 109 | .objGid => 110 | .fieldCompare => 111
  | .saddrFam => 113 | .arg0 => 200 | .arg1 => 201 | .arg2 => 202 | .arg3 => 203

/-- `AUDIT_SUBJ_USER` and so on. -/
def StrField.code : StrField → UInt32
  | .subjUser => 13 | .subjRole => 14 | .subjType => 15 | .subjSen => 16 | .subjClr => 17
  | .objUser => 19 | .objRole => 20 | .objType => 21 | .objLevLow => 22 | .objLevHigh => 23
  | .watch => 105 | .dir => 107 | .exe => 112 | .filterkey => 210

def FieldName.code : FieldName → UInt32
  | .num f => f.code
  | .str f => f.code

/-- `AUDIT_EQUAL` and so on. -/
def Op.code : Op → UInt32
  | .bitMask => 0x08000000
  | .lessThan => 0x10000000
  | .greaterThan => 0x20000000
  | .notEqual => 0x30000000
  | .equal => 0x40000000
  | .bitTest => 0x48000000
  | .lessThanOrEqual => 0x50000000
  | .greaterThanOrEqual => 0x60000000

/-- `AUDIT_OPERATORS`. -/
def auditOperators : UInt32 := 0x78000000

/-! ## The rule -/

/-- `audit_rule_data`. -/
structure RuleData where
  flags : UInt32
  action : UInt32
  fieldCount : Nat
  mask : BitVec maskBits
  fields : Nat → UInt32
  values : Nat → UInt32
  fieldflags : Nat → UInt32
  buflen : UInt32
  /-- All that is allocated behind the struct. -/
  buf : Bytes

/-- A rule of zeros. -/
def RuleData.zero : RuleData where
  flags := 0
  action := 0
  fieldCount := 0
  mask := 0
  fields := fun _ => 0
  values := fun _ => 0
  fieldflags := fun _ => 0
  buflen := 0
  buf := []

/-- The number and the operator of the field to come. -/
def RuleData.setField (r : RuleData) (field op : UInt32) : RuleData :=
  { r with
    fields := update r.fields r.fieldCount field
    fieldflags := update r.fieldflags r.fieldCount op }

/-- `rule->values[rule->field_count] = value`. -/
def RuleData.setValue (r : RuleData) (value : UInt32) : RuleData :=
  { r with values := update r.values r.fieldCount value }

/-- `rule->field_count++`. -/
def RuleData.countUp (r : RuleData) : RuleData := { r with fieldCount := r.fieldCount + 1 }

/-- What `realloc` does: `none` if there is no memory, and else the bytes that are new. -/
abbrev Alloc := Option (Nat → UInt8)

/-- A length in an `int`. -/
@[irreducible] def toInt (n : Nat) : Int := (n : Int).bmod (2 ^ 32)

/-! ## Building -/

/-- The reasons for which a call fails. -/
inductive CallError where
  | field (e : FieldError)
  /-- `*rulep` is `NULL`. -/
  | noRule
  | noMemory
  /-- Rule is not empty. -/
  | notEmpty
  /-- Invalid type used. -/
  | invalidType
  /-- Permissions should be preceeded by other fields. -/
  | noFields
  /-- Too many fields when adding permissions. -/
  | tooMany
  | syscall

/-- The rule of a program, and the global variables of the library. -/
structure Builder where
  given : Given
  /-- `*rulep`. -/
  rule : Option RuleData
  /-- The fields that have been added. -/
  made : List Field
  /-- Something has been written to where there is no rule. -/
  overrun : Bool

abbrev BuildM := EStateM CallError Builder

def theRule : BuildM RuleData := do
  match (← get).rule with
  | some r => pure r
  | none => throw .noRule

def putRule (r : RuleData) : BuildM Unit := modify fun s => { s with rule := some r }

def putGiven (given : Given) : BuildM Unit := modify fun s => { s with given := given }

/-- `realloc` has failed, and the rule has been freed. -/
def outOfMemory {α : Type} : BuildM α := do
  modify fun s => { s with rule := none, made := [] }
  throw .noMemory

/-- The checks that are made before anything is written, knowing how many fields there are. -/
def checked {α : Type} (head : Nat → Except FieldError α) : BuildM α := do
  match head (← theRule).fieldCount with
  | .ok a => pure a
  | .error e => throw (.field e)

/-- The number and the operator of the next field are put in place. -/
def beginField (field op : UInt32) : BuildM RuleData := do
  let r := (← theRule).setField field op
  putRule r
  pure r

/-- A field is complete. -/
def complete (r : RuleData) (f : Field) : BuildM Unit :=
  modify fun s => { s with rule := some r.countUp, made := s.made ++ [f] }

/-- The value that is in place when a number has been refused. -/
def refusedValue (old : UInt32) (v : Bytes) : FieldError → UInt32
  | .errUnknown => 0
  | .filetypeUnknown | .fstypeUnknown => 0 - 1
  | .fieldValTooBig => unsigned v
  | _ => old

/-- `_audit_elf` when a number has been refused. -/
def Given.refused (given : Given) (v : Bytes) : FieldError → Given
  | .elfUnknown => if startsDigit v then { given with elf := unsigned v } else given
  | _ => given

/-- What is given with a string that has been refused. -/
def Given.refusedStr (given : Given) (f : StrField) : FieldError → Given
  | .exitOnly | .fieldNoSupport | .opEqNotEq => given
  | _ => given.addStr f

/-- The end of a string field: make room for it, and copy it. -/
def storeString (r : RuleData) (f : StrField) (op : Op) (v : Bytes) (alloc : Alloc) : BuildM Unit := do
  let vlen := toInt v.length
  let offset := toInt r.buflen.toNat
  let r := r.setValue (toU32 vlen)
  let r := { r with buflen := r.buflen + toU32 vlen }
  match alloc with
  | none => outOfMemory
  | some fresh =>
    let buf := resize r.buf r.buflen.toNat fresh
    -- `strncpy` takes the length for an unsigned number.
    if offset < 0 ∨ vlen < 0 then modify fun s => { s with overrun := true }
    else
      let buf := buf.take offset.toNat ++ v.take vlen.toNat ++ buf.drop (offset + vlen).toNat
      complete { r with buf := buf } (.str f op v)

/-- `audit_rule_fieldpair_data`. -/
def auditRuleFieldpairData (env : Env) (pair : CString) (flags : FilterList) (alloc : Alloc) :
    BuildM Unit := do
  let (name, op, v) ← checked fun fieldCount => fieldpairHead env fieldCount pair.bytes flags
  let r ← beginField name.code op.code
  let given := (← get).given
  match name with
  | .num f =>
    let old := r.values r.fieldCount
    match parseNum env flags given op v old f.kind with
    | .error e =>
      putRule (r.setValue (refusedValue old v e))
      putGiven (given.refused v e)
      throw (.field e)
    | .ok value =>
      putGiven (given.addNum f value)
      complete (r.setValue value) (.num f op value)
  | .str f =>
    match checkStr env flags (given.addStr f) op (toInt v.length) f with
    | .error e =>
      putGiven (given.refusedStr f e)
      throw (.field e)
    | .ok () =>
      putGiven (given.addStr f)
      storeString r f op v alloc

/-- `audit_rule_interfield_comp_data`. -/
def auditRuleInterfieldCompData (pair : CString) (flags : Option FilterList) : BuildM Unit := do
  let (f₁, f₂, op) ← checked fun fieldCount => compHead fieldCount pair.bytes flags
  let r ← beginField (NumField.code .fieldCompare) op.code
  match compareValue f₁ f₂ with
  | none => throw (.field .compIncompat)
  | some value => complete (r.setValue value) (.num .fieldCompare op value)

/-- `AUDIT_PERM_READ | AUDIT_PERM_WRITE | AUDIT_PERM_EXEC | AUDIT_PERM_ATTR`. -/
def allPerms : UInt32 := 15

/-- The rule that `audit_add_watch_dir` makes. -/
def watchRule (type : StrField) (path : Bytes) : RuleData where
  flags := 4
  action := 2
  fieldCount := 2
  mask := BitVec.allOnes maskBits
  fields := update (update (fun _ => 0) 0 type.code) 1 (NumField.code .perm)
  values := update (update (fun _ => 0) 0 (UInt32.ofNat path.length)) 1 allPerms
  fieldflags := update (update (fun _ => 0) 0 (Op.code .equal)) 1 (Op.code .equal)
  buflen := UInt32.ofNat path.length
  buf := path

/-- `audit_add_watch_dir`. -/
def auditAddWatchDir (type : FieldName) (path : CString) (alloc : Alloc) : BuildM Unit := do
  if (← get).rule.any (·.fieldCount != 0) then throw .notEmpty
  match type with
  | .num _ => throw .invalidType
  | .str f =>
    if f ≠ .watch ∧ f ≠ .dir then throw .invalidType
    match alloc with
    | none => outOfMemory
    | some _ => modify fun s => { s with
        given := { s.given with perm := true }
        rule := some (watchRule f path.bytes)
        made := [.str f .equal path.bytes, .num .perm .equal allPerms] }

/-- A field with its permissions updated. -/
def Field.setPerm (perms : UInt32) : Field → Field
  | .num .perm op _ => .num .perm op perms
  | f => f

/-- The `i`-th field is `AUDIT_PERM`. -/
def RuleData.isPerm (r : RuleData) (i : Nat) : Bool :=
  decide (i < r.fieldCount) && r.fields i == NumField.code .perm

/-- The loop that updates permissions. -/
def RuleData.setPerms (r : RuleData) (perms : UInt32) : RuleData :=
  { r with values := fun i => if r.isPerm i then perms else r.values i }

/-- `audit_update_watch_perms`. -/
def auditUpdateWatchPerms (perms : UInt32) : BuildM Unit := do
  let r ← theRule
  if r.fieldCount < 1 then throw .noFields
  if (List.range r.fieldCount).any r.isPerm then
    modify fun s => { s with
      rule := some (r.setPerms perms)
      made := s.made.map (Field.setPerm perms) }
  else
    if maxFields - 1 ≤ r.fieldCount then throw .tooMany
    complete ((r.setField (NumField.code .perm) (Op.code .equal)).setValue perms)
      (.num .perm .equal perms)

/-- `audit_rule_syscall_data`.  Nobody looks whether the number is negative; `field_count`, `action`
and `flags` are in front of the mask.  Shifts are modulo 32. -/
def auditRuleSyscallData (scall : Int) : BuildM Unit := do
  let r ← theRule
  let word := scall.tdiv 32
  let bit := (scall % 32).toNat
  if 63 < word then throw .syscall
  if 0 ≤ word then
    putRule { r with mask := r.mask ||| BitVec.twoPow maskBits (32 * word.toNat + bit) }
  else if word = -1 then putRule { r with fieldCount := r.fieldCount ||| 2 ^ bit }
  else if word = -2 then putRule { r with action := r.action ||| UInt32.ofNat (2 ^ bit) }
  else if word = -3 then putRule { r with flags := r.flags ||| UInt32.ofNat (2 ^ bit) }
  else modify fun s => { s with overrun := true }

/-- `audit_rule_syscallbyname_data`. -/
def auditRuleSyscallbynameData (env : Env) (scall : CString) : BuildM Unit := do
  let r ← theRule
  match syscallbyname env (← get).given.elf r.mask scall.bytes with
  | some mask => putRule { r with mask := mask }
  | none => throw .syscall

/-! ## Calls -/

/-- A call of a function that builds rules. -/
inductive Call where
  | fieldpair (pair : CString) (flags : FilterList) (alloc : Alloc)
  | interfieldComp (pair : CString) (flags : Option FilterList)
  | watchDir (type : FieldName) (path : CString) (alloc : Alloc)
  | watchPerms (perms : UInt32)
  | syscall (scall : Int)
  | syscallbyname (scall : CString)

def Call.program (env : Env) : Call → BuildM Unit
  | .fieldpair pair flags alloc => auditRuleFieldpairData env pair flags alloc
  | .interfieldComp pair flags => auditRuleInterfieldCompData pair flags
  | .watchDir type path alloc => auditAddWatchDir type path alloc
  | .watchPerms perms => auditUpdateWatchPerms perms
  | .syscall scall => auditRuleSyscallData scall
  | .syscallbyname scall => auditRuleSyscallbynameData env scall

/-- What there is after a call, whether it fails or not. -/
def Call.after (env : Env) (s : Builder) (c : Call) : Builder :=
  match c.program env s with
  | .ok () s' => s'
  | .error _ s' => s'

/-- What there is after some calls. -/
def run (env : Env) (s : Builder) (calls : List Call) : Builder := calls.foldl (Call.after env) s

/-- No field has been added: the rule is all zeros, or not yet allocated. -/
def start (given : Given) (allocated : Bool) : Builder where
  given := given
  rule := if allocated then some RuleData.zero else none
  made := []
  overrun := false

/-! ## Reading -/

/-- `%.*s`: a negative precision is taken as if there were none. -/
def printString (precision : UInt32) (s : Bytes) : Bytes :=
  untilNul (if precision < 2 ^ 31 then s.take precision.toNat else s)

/-- A loop over `n` fields from the `i`-th on, with `boffset`: the fields that `carries` takes for
strings, and what is printed for them. -/
def walk (carries : UInt32 → Bool) (r : RuleData) (i boffset : Nat) : Nat → List (UInt32 × Bytes)
  | 0 => []
  | n + 1 =>
    let field := r.fields i &&& ~~~auditOperators
    if carries field then
      (field, printString (r.values i) (r.buf.drop boffset)) ::
        walk carries r (i + 1) (boffset + (r.values i).toNat) n
    else walk carries r (i + 1) boffset n

/-- The fields for which `key_match` moves on in the buffer. -/
def keyMatchCarries (field : UInt32) : Bool :=
  ((13 ≤ field && field ≤ 23) && field != 18) || field == 105 || field == 107 || field == 210 ||
    field == 112

/-- The keys that `key_match` looks at. -/
def keyMatchKeys (r : RuleData) : List Bytes :=
  ((walk keyMatchCarries r 0 0 r.fieldCount).filter (·.1 == StrField.code .filterkey)).map Prod.snd

/-- `key_match`. -/
def keyMatch (key : Bytes) (r : RuleData) : Bool :=
  key.isEmpty || (keyMatchKeys r).any fun k => (strstr key k).isSome

/-- The fields for which `print_rule` moves on in the buffer. -/
def printRuleCarries (field : UInt32) : Bool :=
  if field == 11 then false
  else if fieldTab.any (·.1.code == field) then
    if field == 12 then false
    else if (13 ≤ field && field ≤ 23) && field != 18 then true
    else if field == 105 then true
    else if field == 107 then true
    else if field == 112 then true
    else field == 210
  else false

/-- The strings that `print_rule` prints, with the fields they are printed for. -/
def printRuleStrings (r : RuleData) : List (UInt32 × Bytes) :=
  walk printRuleCarries r 0 0 r.fieldCount

end LibAudit.Rules
