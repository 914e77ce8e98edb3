import LibAudit.Lib.Getopt
import LibAudit.Rules.Layout

/-!
# From options to a rule

`setopt` in `auditctl.c` goes through the options of a command line, or of a line of a rules file, and
`handle_request` sends the rule that they make.  What is known about the rule so far is in global
variables (`Ctl`): the rule and the variables of the library (`Builder`), the lists and the action, and
the keys.  `reset_vars` is called before each line.

`return` in the middle of `setopt` is an error of the monad `CtlM`, with the value that is returned.
Everything that is sent to the kernel is recorded in `Ctl.sent`; what the kernel answers is a parameter.
Messages are left out.  Memory does not run out; what is in new memory does not matter, since strings are
copied over all of it (`Held.buf`).
-/

namespace LibAudit.Rules

open Getopt

/-! ## Options -/

/-- The options of `auditctl`. -/
inductive CtlOpt where
  | help | ignore | continueErrors | status | list | deleteAll | version | trim | compare | enabled
  | failure | rate | backlog | append | insert | delete | syscall | field | message | file | watch
  | unwatch | key | perms | equivalent | loginuidImmutable | backlogWaitTime | resetLost
  | resetBacklogWaitTimeActual | signal
  deriving DecidableEq

/-- The letters, and whether an argument follows. -/
def shortOpts : List (UInt8 × CtlOpt × Bool) := [
  ('h'.toUInt8, .help, false), ('i'.toUInt8, .ignore, false), ('c'.toUInt8, .continueErrors, false),
  ('s'.toUInt8, .status, false), ('l'.toUInt8, .list, false), ('D'.toUInt8, .deleteAll, false),
  ('v'.toUInt8, .version, false), ('t'.toUInt8, .trim, false), ('C'.toUInt8, .compare, true),
  ('e'.toUInt8, .enabled, true), ('f'.toUInt8, .failure, true), ('r'.toUInt8, .rate, true),
  ('b'.toUInt8, .backlog, true), ('a'.toUInt8, .append, true), ('A'.toUInt8, .insert, true),
  ('d'.toUInt8, .delete, true), ('S'.toUInt8, .syscall, true), ('F'.toUInt8, .field, true),
  ('m'.toUInt8, .message, true), ('R'.toUInt8, .file, true), ('w'.toUInt8, .watch, true),
  ('W'.toUInt8, .unwatch, true), ('k'.toUInt8, .key, true), ('p'.toUInt8, .perms, true),
  ('q'.toUInt8, .equivalent, true)]

/-- `long_opts`, with everything that can be configured. -/
def longOpts : List (Bytes × CtlOpt × Bool) := [
  (ascii "loginuid-immutable", .loginuidImmutable, false),
  (ascii "backlog_wait_time", .backlogWaitTime, true),
  (ascii "reset-lost", .resetLost, false),
  (ascii "reset_backlog_wait_time_actual", .resetBacklogWaitTimeActual, false),
  (ascii "signal", .signal, true)]

def ctlSpec : Spec CtlOpt where
  short c := (shortOpts.find? (·.1 == c)).map Prod.snd
  long := longOpts

/-! ## Variables -/

/-- What is sent to the kernel. -/
inductive Request where
  | enabled (arg : Bytes)
  | failure (arg : Bytes)
  | rate (value : UInt32)
  | backlog (value : UInt32)
  | backlogWaitTime (value : UInt32)
  | status
  | features
  | listRules
  | deleteAll (key : Bytes)
  | message (text : Bytes)
  | equivalent (mp sub : Bytes)
  | trim
  | loginuidImmutable
  | resetLost
  | resetBacklogWaitTimeActual
  | signal (name : Bytes)
  | addRule (r : RuleData)
  | deleteRule (r : RuleData)

/-- What the kernel does. -/
structure Kernel where
  /-- `audit_open` succeeds. -/
  socket : Bool
  /-- What the function of the library returns that sends the request. -/
  answer : Request → Int
  /-- A request that fails sets `errno` to `EINVAL`. -/
  einval : Bool

/-- The variables of `auditctl`. -/
structure Ctl where
  /-- `rule_new`, and the variables of the library. -/
  builder : Builder
  /-- `add`; `none` is `AUDIT_FILTER_UNSET`. -/
  add : Option FilterList
  /-- `AUDIT_FILTER_PREPEND` is set in `add`. -/
  prepend : Bool
  del : Option FilterList
  /-- `none` is -1. -/
  action : Option Action
  exclude : Bool
  multiple : Nat
  key : Bytes
  keylen : Nat
  listRequested : Bool
  interpret : Bool
  ignore : Bool
  continueError : Bool
  /-- `fd` is open. -/
  fd : Bool
  /-- `count`, which belongs to `setopt`. -/
  count : Nat
  /-- What has been sent. -/
  sent : List Request

abbrev CtlM := EStateM Int Ctl

/-- A function of the library is called; whether it succeeds. -/
def call (m : BuildM Unit) : CtlM Bool := fun g =>
  match m g.builder with
  | .ok () b => .ok true { g with builder := b }
  | .error _ b => .ok false { g with builder := b }

/-- A request to the kernel, and the answer. -/
def request (kernel : Kernel) (r : Request) : CtlM Int := do
  modify fun g => { g with sent := g.sent ++ [r] }
  pure (kernel.answer r)

/-- The memory for strings. -/
def enough : Alloc := some fun _ => 0

/-- `flags`, for options that need a list. -/
def Ctl.flags (g : Ctl) : Option FilterList := g.add <|> g.del

/-- Setting one of the variables `_audit_syscalladded` and so on. -/
def note (f : Given → Given) : CtlM Unit :=
  modify fun g => { g with builder := { g.builder with given := f g.builder.given } }

/-- `reset_vars`; whether it succeeds. -/
def resetVars (kernel : Kernel) : CtlM Bool := do
  modify fun g => { g with
    listRequested := false, add := none, prepend := false, del := none, action := none,
    exclude := false, multiple := 0, builder := start Given.none true }
  let g ← get
  if g.fd then pure true
  else if kernel.socket then do
    modify fun g => { g with fd := true }
    pure true
  else pure false

/-! ## The list and the action -/

/-- `lookup_filter`. -/
def lookupFilter (str : Bytes) : Option FilterList :=
  [FilterList.task, .exit, .user, .filesystem, .exclude].find? (·.name == str)

/-- `lookup_action`. -/
def lookupAction (str : Bytes) : Except Int Action :=
  if str = ascii "never" then .ok .never
  else if str = ascii "possible" then .error 1
  else if str = ascii "always" then .ok .always
  else .error 2

/-- The variable that `audit_rule_setup` gets. -/
inductive Target where
  | add | del
  deriving DecidableEq

def Target.filter (t : Target) (g : Ctl) : Option FilterList :=
  match t with
  | .add => g.add
  | .del => g.del

/-- The list is found.  Finding the exclude list sets a variable of its own. -/
def Target.setFilter (t : Target) (list : FilterList) (g : Ctl) : Ctl :=
  let g := if list = .exclude then { g with exclude := true } else g
  match t with
  | .add => { g with add := some list, prepend := false }
  | .del => { g with del := some list }

/-- What is found on the left of the comma. -/
def setupFirst (t : Target) (opt : Bytes) : CtlM Int :=
  match lookupFilter opt with
  | some list => do
    modify (t.setFilter list)
    pure 0
  | none =>
    match lookupAction opt with
    | .error rc => pure rc
    | .ok act => do
      modify fun g => { g with action := some act }
      pure 0

/-- What is found on the right of it. -/
def setupSecond (t : Target) (opt : Bytes) : CtlM Int := do
  let g ← get
  if t.filter g = none then
    match lookupFilter opt with
    | some list => do
      modify (t.setFilter list)
      pure 0
    | none => pure 0
  else
    match lookupAction opt with
    | .error rc => pure rc
    | .ok act => do
      modify fun g => { g with action := some act }
      pure 0

/-- `audit_rule_setup`. -/
def auditRuleSetup (t : Target) (opt : Bytes) : CtlM Int := do
  modify fun g => { g with multiple := g.multiple + 1 }
  let g ← get
  let behind := (opt.dropWhile (· != 44)).drop 1
  if g.multiple ≠ 1 then pure 3
  else if 44 ∉ opt ∨ 44 ∈ behind then pure 2
  else do
    let rc ← setupFirst t (opt.takeWhile (· != 44))
    if rc ≠ 0 then pure rc
    else do
      let rc ← setupSecond t behind
      if rc ≠ 0 then pure rc
      else do
        let g ← get
        if t.filter g = none ∨ g.action = none then pure 2 else pure 0

/-- The options `-a`, `-A` and `-d`: two of them test for system calls on the task list, and one puts the
rule at the head of its list. -/
def listOption (t : Target) (testsTask prepends : Bool) (arg : Bytes) : CtlM Int := do
  let g ← get
  if testsTask = true ∧ (strstr (ascii "task") arg).isSome = true ∧ g.builder.given.syscall = true then
    pure (-1)
  else do
    let rc ← auditRuleSetup t arg
    if rc = 1 then throw (-3)
    else if rc ≠ 0 then pure (-1)
    else do
      if prepends then modify fun g => { g with prepend := true }
      pure 1

/-! ## System calls, fields and keys -/

/-- `parse_syscall`. -/
def parseSyscallData (env : Env) (arg : Bytes) : BuildM Unit :=
  if 44 ∈ arg then (words 44 arg).forM fun scall => auditRuleSyscallbynameData env (cstr scall)
  else auditRuleSyscallbynameData env (cstr arg)

/-- The architecture that system calls are looked up for, if none has been given. -/
def detectElf (env : Env) : CtlM Unit := do
  let g ← get
  if g.builder.given.elf = 0 then
    match env.detectMachine with
    | none => throw (-1)
    | some machine => note fun given => { given with elf := auditMachineToElf machine }
  else pure ()

/-- The option `-S`. -/
def syscallOption (env : Env) (retval : Int) (arg : Bytes) : CtlM Int := do
  let g ← get
  if g.add = some .task ∨ g.del = some .task then throw (-1)
  else if g.add = some .user ∨ g.del = some .user then throw (-1)
  else if g.add = some .filesystem ∨ g.del = some .filesystem then throw (-1)
  else if g.exclude then throw (-1)
  else do
    detectElf env
    let ok ← call (parseSyscallData env arg)
    if ok then do
      note fun given => { given with syscall := true }
      pure retval
    else pure (-1)

/-- A key is put behind those that are there: a separator if there are any, `strncat`, and what is left
of the space. -/
def Ctl.catKey (arg : Bytes) (g : Ctl) : Ctl :=
  let g := if g.key = [] then g else { g with key := g.key ++ [1], keylen := g.keylen - 1 }
  let key := g.key ++ arg.take g.keylen
  { g with key := key, keylen := maxKeyLen - key.length }

/-- `process_keys`. -/
def processKeys (retval : Int) (arg : Bytes) : CtlM Int := do
  let g ← get
  if maxKeyLen < arg.length + g.key.length + (if g.key = [] then 0 else 1) then pure (-1)
  else do
    modify (Ctl.catKey arg)
    pure retval

/-- The last field of the rule. -/
def lastField (g : Ctl) : Option UInt32 := g.builder.rule.map fun r => r.fields (r.fieldCount - 1)

/-- What the last field is makes a difference for the options to come.  The option `-C` only asks for
permissions. -/
def notePerm : CtlM Unit := do
  let g ← get
  if lastField g = some (NumField.code .perm) then note fun given => { given with perm := true }
  else pure ()

/-- The same for the option `-F`. -/
def noteField : CtlM Unit := do
  let g ← get
  if lastField g = some (NumField.code .perm) then note fun given => { given with perm := true }
  else if lastField g = some (StrField.code .exe) then note fun given => { given with exe := true }
  else pure ()

/-- The option `-F`; `next` is `vars[optind]`.  An architecture needs no list if `-t` follows. -/
def fieldOption (env : Env) (retval : Int) (arg : Bytes) (next : Option Bytes) : CtlM Int := do
  let g ← get
  if g.flags = none ∧ ((strstr (ascii "arch=") arg).isNone = true ∨ next ≠ some (ascii "-t")) then
    pure (-1)
  else if (ascii "key=").isPrefixOf arg then processKeys retval (arg.drop 4)
  else do
    let ok ← call (auditRuleFieldpairData env (cstr arg) (g.flags.getD .task) enough)
    if ok then do
      noteField
      pure retval
    else pure (-1)

/-- The option `-C`. -/
def compareOption (retval : Int) (arg : Bytes) : CtlM Int := do
  let g ← get
  let ok ← call (auditRuleInterfieldCompData (cstr arg) g.flags)
  if ok then do
    notePerm
    pure retval
  else pure (-1)

/-- The option `-k`. -/
def keyOption (retval : Int) (arg : Bytes) : CtlM Int := do
  let g ← get
  if g.builder.given.allowsKey = false ∨ g.flags = none then pure (-1) else processKeys retval arg

/-! ## Watches -/

/-- `NAME_MAX`. -/
def nameMax : Nat := 255

/-- The path without the slashes at its end, but not without the first one. -/
def stripSlashes (path : Bytes) : Bytes :=
  let p := (path.reverse.dropWhile (· == 47)).reverse
  if p = [] then path.take 1 else p

/-- `basename`, for a path that starts with a slash. -/
def basename (path : Bytes) : Bytes :=
  let p := (path.reverse.dropWhile (· == 47)).reverse
  if p = [] then [47] else (p.reverse.takeWhile (· != 47)).reverse

/-- `check_path`; whether the path is accepted. -/
def checkPath (path : Bytes) : Bool :=
  decide (path.length < pathMax) && path.head? == some 47 &&
    decide ((basename path).length ≤ nameMax)

/-- `audit_setup_watch_name`. -/
def auditSetupWatchName (env : Env) (path : Bytes) : CtlM Int :=
  if checkPath path = false then pure (-1)
  else do
    let path := if 2 < path.length ∧ path.getLast? = some 47 then stripSlashes path else path
    let type := if env.isDir path then StrField.dir else .watch
    let ok ← call (auditAddWatchDir (.str type) (cstr path) enough)
    if ok then pure 1 else pure (-1)

/-- The option `-w`. -/
def watchOption (env : Env) (arg : Bytes) : CtlM Int := do
  let g ← get
  if g.add ≠ none ∨ g.del ≠ none then pure (-1)
  else do
    modify fun g => { g with add := some .exit, prepend := false, action := some .always }
    note fun given => { given with syscall := true }
    auditSetupWatchName env arg

/-- The option `-W`. -/
def unwatchOption (env : Env) (arg : Bytes) : CtlM Int := do
  modify fun g => { g with del := some .exit, action := some .always }
  note fun given => { given with syscall := true }
  auditSetupWatchName env arg

/-- `audit_setup_perms`. -/
def auditSetupPerms (opt : Bytes) : CtlM Int :=
  if 4 < opt.length then pure (-1)
  else
    match permBits opt with
    | none => pure (-1)
    | some val => do
      let ok ← call (auditUpdateWatchPerms val)
      if ok then do
        note fun given => { given with perm := true }
        pure 1
      else pure (-1)

/-- The option `-p`.  The user list is 0. -/
def permsOption (arg : Bytes) : CtlM Int := do
  let g ← get
  if g.add = some .user ∧ g.prepend = false ∧ g.del = some .user then pure (-1)
  else auditSetupPerms arg

/-! ## Other options -/

section Other

variable (kernel : Kernel)

/-- The options `-e` and `-f`; only `-f` returns at once if the kernel refuses. -/
def flagOption (returns : Bool) (r : Bytes → Request) (retval : Int) (arg : Bytes) : CtlM Int :=
  if arg = ascii "0" ∨ arg = ascii "1" ∨ arg = ascii "2" then do
    let rc ← request kernel (r arg)
    if 0 < rc then pure retval else if returns then throw (-1) else pure (-1)
  else pure (-1)

/-- The options `-r`, `-b` and `--backlog_wait_time`. -/
def numberOption (r : UInt32 → Request) (retval : Int) (arg : Bytes) : CtlM Int :=
  if startsDigit arg then
    match strtoulIn 0 arg with
    | none => throw (-1)
    | some value => do
      let rc ← request kernel (r value.toUInt32)
      if 0 < rc then pure retval else throw (-1)
  else pure (-1)

/-- Options after which nothing else is done: the value is -2 if the kernel agrees. -/
def simpleOption (agrees : Int → Bool) (r : Request) : CtlM Int := do
  let rc ← request kernel r
  if agrees rc then throw (-2) else pure (-1)

/-- `report_status`.  The kernel need not know about features. -/
def reportStatus : CtlM Int := do
  let rc ← request kernel .status
  if rc = -1 then pure (-1)
  else do
    let rc ← request kernel .features
    if rc = -1 ∧ kernel.einval = false then pure (-1) else pure (-2)

/-- The option `-s`; `next` is `vars[optind]`.  Here and in the next two options `strcmp` may be called
with `NULL`; the program that dies of it sends nothing, like the one that refuses the option. -/
def statusOption (optind : Nat) (next : Option Bytes) : CtlM Int := do
  let g ← get
  if 3 < g.count then pure (-1)
  else if optind = 2 ∧ g.count = 3 then
    if next = some (ascii "-i") then do
      modify fun g => { g with interpret := true, count := g.count - 1 }
      reportStatus kernel
    else pure (-1)
  else reportStatus kernel

/-- `audit_request_rule_list`. -/
def auditRequestRuleList : CtlM Bool := do
  let rc ← request kernel .listRules
  if 0 < rc then do
    modify fun g => { g with listRequested := true }
    pure true
  else pure false

/-- `strncat(key, vars[3], keylen)`. -/
def thirdKey (third : Bytes) : CtlM Unit :=
  modify fun g => { g with key := g.key ++ third.take g.keylen, count := g.count - 2 }

def listRules : CtlM Int := do
  let ok ← auditRequestRuleList kernel
  if ok then pure (-2) else pure (-1)

/-- The option `-l`; `third` is `vars[3]`. -/
def listRulesOption (next : Option Bytes) (third : Bytes) : CtlM Int := do
  let g ← get
  if 4 < g.count then pure (-1)
  else if g.count = 3 then
    if next = some (ascii "-i") then do
      modify fun g => { g with interpret := true, count := g.count - 1 }
      listRules kernel
    else pure (-1)
  else if g.count = 4 then
    if next = some (ascii "-k") then do
      thirdKey third
      listRules kernel
    else pure (-1)
  else listRules kernel

def deleteAllRules : CtlM Int := do
  let g ← get
  let rc ← request kernel (.deleteAll g.key)
  if rc = 0 then do
    let _ ← auditRequestRuleList kernel
    modify fun g => { g with key := [] }
    pure (-2)
  else pure (-1)

/-- The option `-D`. -/
def deleteAllOption (next : Option Bytes) (third : Bytes) : CtlM Int := do
  let g ← get
  if 4 < g.count ∨ g.count = 3 then pure (-1)
  else if g.count = 4 then
    if next = some (ascii "-k") then do
      thirdKey third
      deleteAllRules kernel
    else pure (-1)
  else deleteAllRules kernel

/-- The option `-m`.  Characters are signed. -/
def messageOption (arg : Bytes) : CtlM Int := do
  let g ← get
  if 3 < g.count then pure (-1)
  else if arg.any fun c => decide (c < 32) || decide (128 ≤ c) then throw (-1)
  else simpleOption kernel (0 < ·) (.message (ascii "text=" ++ arg))

/-- The option `-q`. -/
def equivalentOption (arg : Bytes) : CtlM Int := do
  let g ← get
  let sub := (arg.dropWhile (· != 44)).drop 1
  if g.builder.given.syscall = true then pure (-1)
  else if 44 ∉ arg ∨ sub = [] ∨ 44 ∈ sub then pure (-1)
  else simpleOption kernel (0 < ·) (.equivalent (arg.takeWhile (· != 44)) sub)

/-- `send_signal`. -/
def sendSignal (arg : Bytes) : CtlM Int :=
  if arg.map upcase ∈ [ascii "TERM", ascii "HUP", ascii "USR1", ascii "USR2", ascii "CONT"] then do
    let rc ← request kernel (.signal arg)
    if 0 ≤ rc then pure (-2) else pure (-1)
  else pure (-1)

end Other

/-! ## The loop -/

/-- One turn of the loop: the new value of `retval`.  `vars` are the words behind the name of the
program; those from `optind` on are where they were. -/
def option (env : Env) (kernel : Kernel) (vars : List Bytes) (retval : Int) (ev : Event CtlOpt) :
    CtlM Int :=
  let next := vars[ev.optind - 1]?
  let third := vars.getD 2 []
  match ev.opt with
  | none => pure (-1)
  | some .help => pure (-1)
  | some .ignore => do
    modify fun g => { g with ignore := true }
    pure (-2)
  | some .continueErrors => do
    modify fun g => { g with ignore := true, continueError := true }
    pure (-2)
  | some .status => statusOption kernel ev.optind next
  | some .enabled => flagOption kernel false .enabled retval ev.arg
  | some .failure => flagOption kernel true .failure retval ev.arg
  | some .rate => numberOption kernel .rate retval ev.arg
  | some .backlog => numberOption kernel .backlog retval ev.arg
  | some .list => listRulesOption kernel next third
  | some .append => listOption .add true false ev.arg
  | some .insert => listOption .add true true ev.arg
  | some .delete => listOption .del false false ev.arg
  | some .syscall => syscallOption env retval ev.arg
  | some .field => fieldOption env retval ev.arg next
  | some .compare => compareOption retval ev.arg
  | some .message => messageOption kernel ev.arg
  | some .file => pure (-1)
  | some .deleteAll => deleteAllOption kernel next third
  | some .watch => watchOption env ev.arg
  | some .unwatch => unwatchOption env ev.arg
  | some .key => keyOption retval ev.arg
  | some .perms => permsOption ev.arg
  | some .equivalent => equivalentOption kernel ev.arg
  | some .trim => simpleOption kernel (0 < ·) .trim
  | some .version => pure (-2)
  | some .loginuidImmutable => simpleOption kernel (0 < ·) .loginuidImmutable
  | some .backlogWaitTime => numberOption kernel .backlogWaitTime retval ev.arg
  | some .resetLost => simpleOption kernel (0 ≤ ·) .resetLost
  | some .resetBacklogWaitTimeActual => simpleOption kernel (0 ≤ ·) .resetBacklogWaitTimeActual
  | some .signal => sendSignal kernel ev.arg

/-- The loop: `retval` and `optind` at its end.  `last` is `optind` when all options have been read. -/
def optionLoop (env : Env) (kernel : Kernel) (vars : List Bytes) (last : Nat) :
    Int → List (Event CtlOpt) → CtlM (Int × Nat)
  | retval, [] => pure (retval, last)
  | retval, ev :: evs => do
    let retval ← option env kernel vars retval ev
    if retval < 0 then pure (retval, ev.optind) else optionLoop env kernel vars last retval evs

/-- The key is added to the rule. -/
def addKey (env : Env) (retval : Int) : CtlM Int := do
  let g ← get
  if g.key ≠ [] ∧ g.listRequested = false then do
    let ok ← call (auditRuleFieldpairData env (cstr (ascii "key=" ++ g.key)) (g.flags.getD .user) enough)
    if ok then pure retval else pure (-1)
  else pure retval

/-- `retval` after the loop: words must not be left over. -/
def leftOver (retval : Int) (optind count : Nat) : Int :=
  if optind = 1 then -1 else if optind < count ∧ retval ≠ -1 then -1 else retval

/-- `setopt`. -/
def setopt (env : Env) (kernel : Kernel) (vars : List Bytes) : CtlM Int := do
  modify fun g => { g with key := [], keylen := maxKeyLen, count := vars.length + 1 }
  let parsed := getoptLong ctlSpec 1 false vars
  let r ← optionLoop env kernel vars (vars.length + 1 - parsed.2.length) 0 parsed.1
  let g ← get
  addKey env (leftOver r.1 r.2 g.count)

/-! ## Sending the rule -/

/-- System calls that have not been given are all system calls, but not on the task list. -/
def allSyscalls (env : Env) (list : FilterList) : CtlM Unit := do
  let g ← get
  if list ≠ .task ∧ g.builder.given.syscall = false then do
    let _ ← call (auditRuleSyscallbynameData env (cstr (ascii "all")))
  else pure ()

/-- `AUDIT_FILTER_USER` and so on. -/
def FilterList.code : FilterList → UInt32
  | .user => 0
  | .task => 1
  | .exit => 4
  | .exclude => 5
  | .filesystem => 6

/-- `AUDIT_NEVER` and so on; -1 if there is none. -/
def actionCode : Option Action → UInt32
  | some .never => 0
  | some .always => 2
  | none => 0 - 1

/-- `audit_add_rule_data` and `audit_delete_rule_data`. -/
def sendRule (kernel : Kernel) (r : RuleData → Request) (flags : UInt32) : CtlM Int := do
  let g ← get
  match g.builder.rule with
  | none => pure (-1)
  | some rule => do
    let rule := { rule with flags := flags, action := actionCode g.action }
    modify fun g => { g with builder := { g.builder with rule := some rule } }
    request kernel (r rule)

/-- The rule is sent, and for old kernels once more with another first field. -/
def sendRetry (kernel : Kernel) (r : RuleData → Request) (flags : UInt32) : CtlM Int := do
  let rc ← sendRule kernel r flags
  let g ← get
  -- `EINVAL`
  if rc = -22 ∧ g.builder.rule.map (·.fields 0) = some (StrField.code .dir) then do
    modify fun g => { g with builder := { g.builder with rule := g.builder.rule.map fun rule =>
      { rule with fields := Function.update rule.fields 0 (StrField.code .watch) } } }
    sendRule kernel r flags
  else pure rc

/-- `handle_request` for a rule; without a list the program ends. -/
def handleRule (env : Env) (kernel : Kernel) : CtlM Int := do
  let g ← get
  match g.add, g.del with
  | some list, _ => do
    allSyscalls env list
    sendRetry kernel .addRule (list.code ||| if g.prepend then 16 else 0)
  | none, some list => do
    allSyscalls env list
    sendRetry kernel .deleteRule list.code
  | none, none => throw 1

/-- The socket is closed. -/
def closeFd (status : Int) : CtlM Int := do
  modify fun g => { g with fd := false }
  pure status

/-- `handle_request`. -/
def handleRequest (env : Env) (kernel : Kernel) (status : Int) : CtlM Int := do
  let g ← get
  if status = 0 then
    if g.builder.given.syscall = true then pure (-1) else closeFd 0
  else if status = -2 then closeFd 0
  else if 0 < status then do
    let rc ← handleRule env kernel
    if rc ≤ 0 then closeFd (-1) else closeFd 0
  else closeFd (-1)

end LibAudit.Rules
