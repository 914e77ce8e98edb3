import LibAudit.Auparse.Record
import LibAudit.Lib.Find
import LibAudit.Search.Match

/-!
# What is extracted from a SYSCALL record

`parse_syscall` and `parse_task_info` look for the fields of a SYSCALL record one after the other, each
from where the one before ended and only if an option asks for it.  A field is looked for with
`strstr`.  They go back twice: `parse_task_info` starts at the beginning of the record again and looks
for `exe=` from there, and `parse_syscall` looks for `key=` from behind the argument `a1`.

`Scan` is the state of the two functions: what was extracted so far, and `term`, the text from where the
next search starts.  A step fails with the number that the function returns.
-/

namespace LibAudit.Search

open Find Auparse

/-! ## Reading -/

/-- `strtoll`; `none` if `errno` is set to `ERANGE`. -/
def strtoll (base : Nat) (s : Bytes) : Option Int64 :=
  let (neg, n) := numberIn base s
  if neg then if 2 ^ 63 < n then none else some (Int64.ofInt (-n))
  else if 2 ^ 63 ≤ n then none else some (Int64.ofInt n)

/-- `unescape`, which is the same function as the one of auparse. -/
def unescape (buf : Bytes) : Option Bytes := auUnescape buf

/-- The bytes up to the next `c`, and the text from there. -/
def cut (c : UInt8) (ptr : Bytes) : Option (Bytes × Bytes) :=
  if c ∈ ptr then some (ptr.takeWhile (· != c), ptr.dropWhile (· != c)) else none

/-- What the two functions have extracted, with the arguments they keep in the record, and where they
are. -/
structure Scan where
  items : SearchItems
  a0 : UInt64
  a1 : UInt64
  term : Bytes

namespace Scan

/-- A number in front of a blank. -/
def number {α : Type} (read : Bytes → Option α) (noBlank range : Nat) (put : Scan → α → Scan)
    (st : Scan) (ptr : Bytes) : Except Nat Scan :=
  match cut blank ptr with
  | none => .error noBlank
  | some (text, term) =>
    match read text with
    | none => .error range
    | some n => .ok { put st n with term := term }

/-- A field that has to be there. -/
def required (name : String) (missing : Nat) (get : Scan → Bytes → Except Nat Scan) (st : Scan) :
    Except Nat Scan :=
  match behind (ascii name) st.term with
  | none => .error missing
  | some ptr => get st ptr

/-- A field that may be missing. -/
def optional (name : String) (get : Scan → Bytes → Except Nat Scan) (st : Scan) : Except Nat Scan :=
  match behind (ascii name) st.term with
  | none => .ok st
  | some ptr => get st ptr

/-- A step that is only made if there is an option for it. -/
def when (active : Bool) (step : Scan → Except Nat Scan) (st : Scan) : Except Nat Scan :=
  if active then step st else .ok st

/-- An untrusted value: in quotes, which moves `term` to the closing one, or in hexadecimal digits. -/
def untrusted (unclosed : Nat) (st : Scan) (str : Bytes) : Except Nat (Option Bytes × Bytes) :=
  if str.head? = some 34 then
    match cut 34 (str.drop 1) with
    | none => .error unclosed
    | some (text, term) => .ok (some text, term)
  else .ok (unescape str, st.term)

end Scan

open Scan

/-! ## `parse_task_info` -/

section TaskInfo

variable (opts : Options) (lookupUid : Bytes → UInt32 → Option Bytes)

def getPpid : Scan → Except Nat Scan :=
  when (opts.ppid != -1) <| optional "ppid=" <| number (strtoulIn 10) 14 15
    fun st n => { st with items.ppid := n.toUInt32.toInt32 }

def getPid : Scan → Except Nat Scan :=
  when (opts.pid != -1) <| required " pid=" 16 <| number (strtoulIn 10) 17 18
    fun st n => { st with items.pid := n.toUInt32.toInt32 }

/-- Older records have another name for it. -/
def getLoginuid : Scan → Except Nat Scan :=
  when (opts.loginuid != 0xFFFFFFFE || opts.tauid.isSome) fun st =>
    match behind (ascii "auid=") st.term <|> behind (ascii "loginuid=") st.term with
    | none => .error 19
    | some ptr => number (strtoulIn 10) 20 21 (fun st n =>
        { st with
          items.loginuid := n.toUInt32
          items.tauid := lookupUid (ascii "auid") n.toUInt32 }) st ptr

/-- This sometimes hits `auid` instead of `uid`, and is tried again then. -/
def getUid : Scan → Except Nat Scan :=
  when (opts.uid != 0xFFFFFFFF || opts.tuid.isSome) fun st =>
    match behindIf (· != 97) (ascii "uid=") 0 st.term with
    | none => .error 22
    | some ptr => number (strtoulIn 10) 23 24 (fun st n =>
        { st with
          items.uid := n.toUInt32
          items.tuid := lookupUid (ascii "uid") n.toUInt32 }) st ptr

def getGid : Scan → Except Nat Scan :=
  when (opts.gid != 0xFFFFFFFF) <| required "gid=" 25 <| number (strtoulIn 10) 26 27
    fun st n => { st with items.gid := n.toUInt32 }

def getEuid : Scan → Except Nat Scan :=
  when (opts.euid != 0xFFFFFFFF || opts.teuid.isSome) <| required "euid=" 28 <|
    number (strtoulIn 10) 29 30 fun st n =>
      { st with
        items.euid := n.toUInt32
        items.teuid := lookupUid (ascii "euid") n.toUInt32 }

def getEgid : Scan → Except Nat Scan :=
  when (opts.egid != 0xFFFFFFFF) <| required "egid=" 31 <| number (strtoulIn 10) 32 33
    fun st n => { st with items.egid := n.toUInt32 }

/-- The terminal is text, so it cannot be out of range. -/
def getTty : Scan → Except Nat Scan :=
  when opts.terminal.isSome <| optional "tty=" <| number some 34 34
    fun st str => { st with items.terminal := some str }

def getSes : Scan → Except Nat Scan :=
  when (opts.sessionId != 0xFFFFFFFE) <| optional "ses=" <| number (strtoulIn 10) 35 36
    fun st n => { st with items.sessionId := n.toUInt32 }

def getComm : Scan → Except Nat Scan :=
  when opts.comm.isSome <| required "comm=" 38 fun st str =>
    match untrusted 37 st str with
    | .error e => .error e
    | .ok (comm, term) => .ok { st with items.comm := comm, term := term }

/-- The search starts at the beginning of the message. -/
def getExe (message : Bytes) : Scan → Except Nat Scan :=
  when opts.exe.isSome fun st =>
    match behind (ascii "exe=") message with
    | none => .error 40
    | some str =>
      match untrusted 39 st str with
      | .error e => .error e
      | .ok (exe, term) => .ok { st with items.exe := exe, term := term }

def getSubj : Scan → Except Nat Scan :=
  when opts.subject.isSome <| optional "subj=" <| number some 41 41
    fun st str => { st with items.avc := some (st.items.avc.getD [] ++ [⟨some str, none⟩]) }

/-- The result of a user space record.  It may be the last field. -/
def getRes : Scan → Except Nat Scan :=
  when (opts.success != -1) <| optional "res=" fun st ptr =>
    match strtoulIn 10 (ptr.takeWhile (· != blank)) with
    | none => .error 43
    | some n => .ok { st with items.success := n.toUInt32.toInt32 }

/-- The part of `parse_task_info` for what the kernel writes by itself. -/
def parseIds (st : Scan) : Except Nat Scan := do
  let st ← getPpid opts st
  let st ← getPid opts st
  let st ← getLoginuid opts lookupUid st
  let st ← getUid opts lookupUid st
  let st ← getGid opts st
  let st ← getEuid opts lookupUid st
  let st ← getEgid opts st
  let st ← getTty opts st
  getSes opts st

/-- `parse_task_info`. -/
def parseTaskInfo (message : Bytes) (st : Scan) : Except Nat Scan := do
  let st ← parseIds opts lookupUid { st with term := message }
  let st ← getComm opts st
  let st ← getExe opts message st
  let st ← getSubj opts st
  getRes opts st

end TaskInfo

/-! ## `parse_syscall` -/

section Syscall

variable (opts : Options) (interp : Bool) (lookupUid : Bytes → UInt32 → Option Bytes)

/-- The machine is also needed to interpret the record. -/
def getArch : Scan → Except Nat Scan :=
  when (interp || opts.machine.isSome) <| required "arch=" 1 <| number (strtoulIn 16) 2 3
    fun st n => { st with items.arch := n.toUInt32 }

def getSyscall : Scan → Except Nat Scan :=
  required "syscall=" 4 <| number (strtoulIn 10) 5 6
    fun st n => { st with items.syscall := n.toUInt32.toInt32 }

/-- `exit_group` does not have it. -/
def getSuccess : Scan → Except Nat Scan :=
  when (opts.success != -1) <| optional "success=" <| number some 7 7
    fun st str => { st with items.success := if str = ascii "yes" then 1 else 0 }

def getExit : Scan → Except Nat Scan :=
  when opts.exitIsSet <| required "exit=" 8 <| number (strtoll 0) 9 10
    fun st n => { st with items.exit := n, items.exitIsSet := true }

def getA0 : Scan → Except Nat Scan :=
  required "a0=" 11 <| number (strtoulIn 16) 12 13 fun st n => { st with a0 := n }

def getA1 : Scan → Except Nat Scan :=
  required "a1=" 11 <| number (strtoulIn 16) 12 13 fun st n => { st with a1 := n }

/-- The keys in an untrusted value. -/
def readKeys (str : Bytes) : Except Nat (List Bytes) :=
  if str.head? = some 34 then
    match cut 34 (str.drop 1) with
    | none => .error 44
    | some (text, _) => .ok [text]
  else
    match unescape str with
    | none => .error 45
    | some keys => .ok (words 1 keys)

/-- The keys are appended to those of other records. -/
def addKeys (st : Scan) (str : Bytes) : Except Nat Scan :=
  match readKeys str with
  | .error e => .error e
  | .ok keys => .ok { st with items.key := some (st.items.key.getD [] ++ keys.map some) }

/-- The keys, from behind `a1`. -/
def getKey (term : Bytes) : Scan → Except Nat Scan :=
  when opts.key.isSome fun st =>
    match behind (ascii "key=") term with
    | none => .ok st
    | some str => addKeys st str

/-- The part of `parse_syscall` before it calls `parse_task_info`. -/
def parseArguments (message : Bytes) (items : SearchItems) : Except Nat Scan := do
  let st ← getArch opts interp ⟨items, 0, 0, message⟩
  let st ← getSyscall st
  let st ← getSuccess opts st
  let st ← getExit opts st
  let st ← getA0 st
  getA1 st

/-- `parse_syscall`, with what it extracts if it returns 0. -/
def parseSyscall (message : Bytes) (items : SearchItems) : Except Nat Scan := do
  let args ← parseArguments opts interp message items
  let st ← parseTaskInfo opts lookupUid message args
  getKey opts args.term st

end Syscall

end LibAudit.Search
