import LibAudit.Auditd.Listen
import LibAudit.Spool.File
import LibAudit.Tables.MsgType

/-!
# Writing the log: `auditd-event.c`

The daemon writes each event to the stream `log_file`, looks at the size of the log and at the
space left on the partition after it, and acts on what it finds: it may rotate the logs, suspend
logging, or close the stream and run a program.  Rotation, reconfiguration and the signal to resume
logging close and open the stream as well.

`Daemon` has the static data of the file, `logFile` being `log_file != NULL`.  Writing to the stream
or closing it while it is `NULL` is a `StreamFault`; the program has no defined behaviour beyond it.
A flush then flushes all streams, and the daemon goes on; `flushedNull` says that this has happened.
How the system calls come out is an arbitrary `Calls`, looked up by the number of the call.

`rotate_logs` and `do_disk_full_action` call each other, but not for long: `rotate_logs` acts on a
full disk only while `fs_space_left` is 1 and clears it first.  So each is defined from the other
one level down (`rotateLogsInner`, `doDiskFullActionInner`), where the former has nothing to do
about a full disk any more.

Messages to syslog, mails, programs that are run and permissions of files are left out.
-/

namespace LibAudit.Auditd

open Wire Spool Tables

/-! ## Configuration -/

/-- `daemon_t`. -/
inductive Daemonize
  | foreground | background
  deriving DecidableEq, Repr

/-- `flush_technique`. -/
inductive FlushTechnique
  | none | incremental | incrementalAsync | data | sync
  deriving DecidableEq, Repr

/-- `failure_action_t`. -/
inductive FailureAction
  | ignore | syslog | rotate | email | exec | suspend | single | halt
  deriving DecidableEq, Repr

/-- `size_action`. -/
inductive SizeAction
  | ignore | syslog | suspend | rotate | keepLogs
  deriving DecidableEq, Repr

/-- The part of `struct daemon_conf` that `auditd-event.c` reads. -/
structure DaemonConf where
  daemonize : Daemonize
  writeLogs : Bool
  logFile : String
  logGroup : Nat
  flush : FlushTechnique
  freq : Nat
  numLogs : Nat
  maxLogSize : Nat
  maxLogSizeAction : SizeAction
  spaceLeft : Nat
  spaceLeftPercent : Nat
  spaceLeftAction : FailureAction
  spaceLeftExe : Option String
  adminSpaceLeft : Nat
  adminSpaceLeftPercent : Nat
  adminSpaceLeftAction : FailureAction
  adminSpaceLeftExe : Option String
  diskFullAction : FailureAction
  diskFullExe : Option String
  diskErrorAction : FailureAction
  diskErrorExe : Option String
  distributeNetworkEvents : Bool
  deriving DecidableEq, Repr

/-! ## The state -/

/-- How the system calls come out, by the number of the call. -/
structure Calls where
  malloc : Nat → Bool
  /-- `none` if the file is renamed. -/
  rename : Nat → Option Errno
  /-- How many files `shift_logs` finds in a row. -/
  access : Nat → Nat
  /-- All the calls made by `open_audit_log`: the size of the log, if they succeed. -/
  openLog : Nat → Option Nat
  /-- The number of characters `fprintf` has written, or an error. -/
  fprintf : Nat → Except Errno Nat
  fflush : Nat → Option Errno
  fsync : Nat → Option Errno
  /-- `f_bavail` and `f_bsize`. -/
  fstatfs : Nat → Option (Nat × Nat)
  /-- What a percentage of the partition comes to, in megabytes. -/
  percent : Nat → Nat

/-- A reply sent to a network client. -/
structure Reply where
  type : Nat
  msg : String
  sequenceId : Nat
  deriving DecidableEq

/-- The header of a reply, as `send_ack` packs it. -/
def Reply.header (r : Reply) : Bytes := packHeader 0 r.type r.msg.length r.sequenceId

/-- The static data of `auditd-event.c`, with the lines written and the replies sent so far. -/
structure Daemon where
  config : DaemonConf
  calls : Calls
  tick : Nat
  /-- `log_file != NULL`. -/
  logFile : Bool
  /-- `log_fd >= 0`. -/
  logFd : Bool
  diskErrWarning : Nat
  fsSpaceWarning : Bool
  fsAdminSpaceWarning : Bool
  fsSpaceLeft : Bool
  loggingSuspended : Bool
  knownLogs : Nat
  lastLog : Nat
  logSize : Nat
  count : Nat
  /-- `fflush` was called with `NULL`. -/
  flushedNull : Bool
  written : List Bytes
  replies : List Reply

/-- The stream is written to or closed although it is `NULL`. -/
inductive StreamFault
  | write | close
  deriving DecidableEq, Repr

/-- A computation of the daemon. -/
abbrev LogM := EStateM StreamFault Daemon

/-- The outcome of the next call. -/
def outcome {α : Type} (f : Calls → Nat → α) : LogM α :=
  modifyGet fun d => (f d.calls d.tick, { d with tick := d.tick + 1 })

/-- `if` without `else`. -/
def whenever (c : Prop) [Decidable c] (m : LogM Unit) : LogM Unit := if c then m else pure ()

/-- `fclose(log_file); log_file = NULL`. -/
def closeLog : LogM Unit := do
  let d ← get
  if d.logFile then set { d with logFile := false } else throw .close

/-- `logging_suspended = 1`. -/
def suspendLogging : LogM Unit := modify fun d => { d with loggingSuspended := true }

/-- The stream is closed in case the program moves the file. -/
def execAction : LogM Unit := do
  closeLog
  modify fun d => { d with logFd := false, loggingSuspended := true }

/-! ## Actions on errors -/

/-- `do_disk_error_action`. -/
def doDiskErrorAction : LogM Unit := do
  let d ← get
  match d.config.diskErrorAction with
  | .syslog =>
    whenever (d.diskErrWarning < 5) (modify fun d => { d with diskErrWarning := d.diskErrWarning + 1 })
  | .exec => execAction
  | .suspend => suspendLogging
  | _ => pure ()

/-- `do_disk_full_action`, with `rotate` for `rotate_logs(0, 0)`. -/
def doDiskFullActionWith (rotate : LogM Unit) : LogM Unit := do
  let d ← get
  match d.config.diskFullAction with
  | .rotate => whenever (1 < d.config.numLogs) rotate
  | .exec => execAction
  | .suspend => suspendLogging
  | _ => pure ()

/-! ## Rotation -/

/-- `open_audit_log`: whether it fails. -/
def openAuditLog : LogM Bool := do
  let d ← get
  if d.config.writeLogs = false then pure false
  else do
    match ← outcome Calls.openLog with
    | none => pure true
    | some size => do
      modify fun d => { d with logFile := true, logFd := true, logSize := size }
      pure false

/-- A rename that failed, other than for want of a file. -/
def renameError (onFull : LogM Unit) (e : Errno) : LogM Unit := do
  let d ← get
  if e = .enospc ∧ d.fsSpaceLeft then do
    set { d with fsSpaceLeft := false }
    onFull
  else doDiskErrorAction

/-- Log `i - 1` becomes log `i`. -/
def renameLog (onFull : LogM Unit) (i : Nat) : LogM Unit := do
  match ← outcome Calls.rename with
  | none => modify fun d => if d.knownLogs = 0 then { d with knownLogs := i + 1 } else d
  | some .enoent => pure ()
  | some e => renameError onFull e

/-- The loop of `rotate_logs`, from log `i` down to log 2. -/
def renameLogs (onFull : LogM Unit) : Nat → LogM Unit
  | 0 => pure ()
  | 1 => pure ()
  | i + 2 => do
    renameLog onFull (i + 2)
    renameLogs onFull (i + 1)

/-- The log itself becomes log 1. -/
def renameCurrent (onFull : LogM Unit) : LogM Unit := do
  match ← outcome Calls.rename with
  | none => pure ()
  | some .enoent => pure ()
  | some e => renameError onFull e

/-- A new log is opened after the rotation. -/
def reopenAfterRotate : LogM Unit := do
  let failed ← openAuditLog
  whenever (failed = true) do
    suspendLogging
    doDiskErrorAction

/-- `rotate_logs`, with `onFull` for `do_disk_full_action`. -/
def rotateLogsWith (onFull : LogM Unit) (numLogs : Nat) (keepLogs : Bool) : LogM Unit := do
  let d ← get
  if d.config.numLogs < 2 ∧ keepLogs = false then pure ()
  else do
    closeLog
    let oldname ← outcome Calls.malloc
    if oldname = false then suspendLogging
    else do
      let newname ← outcome Calls.malloc
      if newname = false then suspendLogging
      else do
        modify fun d => { d with knownLogs := 0 }
        renameLogs onFull ((if numLogs = 0 then d.config.numLogs else numLogs) - 1)
        renameCurrent onFull
        reopenAfterRotate

/-- `rotate_logs` while `fs_space_left` is 0. -/
def rotateLogsInner (numLogs : Nat) (keepLogs : Bool) : LogM Unit :=
  rotateLogsWith (pure ()) numLogs keepLogs

/-- `do_disk_full_action` from inside a rotation. -/
def doDiskFullActionInner : LogM Unit := doDiskFullActionWith (rotateLogsInner 0 false)

/-- `rotate_logs`. -/
def rotateLogs (numLogs : Nat) (keepLogs : Bool) : LogM Unit :=
  rotateLogsWith doDiskFullActionInner numLogs keepLogs

/-- `do_disk_full_action`. -/
def doDiskFullAction : LogM Unit := doDiskFullActionWith (rotateLogs 0 false)

/-- Where the next log goes: the first number, from `last_log` on, that is not taken. -/
def nextLog : LogM Nat := do
  let d ← get
  let n ← outcome Calls.access
  let numLogs := (d.lastLog + n) % 2 ^ 32
  modify fun d => { d with knownLogs := numLogs }
  if numLogs ≤ d.lastLog ∧ 1 < d.lastLog then do
    -- our last known file disappeared, start over
    let n ← outcome Calls.access
    pure ((1 + n) % 2 ^ 32)
  else pure numLogs

/-- `shift_logs`. -/
def shiftLogs : LogM Unit := do
  let name ← outcome Calls.malloc
  if name = false then pure ()
  else do
    let numLogs ← nextLog
    modify fun d => { d with lastLog := numLogs }
    rotateLogs (numLogs + 1) true

/-- `rotate_logs_now`. -/
def rotateLogsNow : LogM Unit := do
  let d ← get
  if d.config.maxLogSizeAction = .keepLogs then shiftLogs else rotateLogs 0 false

/-! ## Checks after a write -/

/-- `MEGABYTE`. -/
def megabyte : Nat := 1048576

/-- `check_log_file_size`. -/
def checkLogFileSize : LogM Unit := do
  let d ← get
  if d.config.writeLogs = false then pure ()
  else if d.config.maxLogSize ≤ d.logSize / megabyte ∧ d.config.daemonize = .background then
    match d.config.maxLogSizeAction with
    | .suspend => suspendLogging
    | .rotate => whenever (1 < d.config.numLogs) (rotateLogs 0 false)
    | .keepLogs => shiftLogs
    | _ => pure ()
  else pure ()

/-- `do_space_left_action`, for one of the two actions. -/
def doSpaceLeftAction (action : FailureAction) : LogM Unit := do
  let d ← get
  match action with
  | .rotate => whenever (1 < d.config.numLogs) (rotateLogs 0 false)
  | .exec => execAction
  | .suspend => suspendLogging
  | _ => pure ()

/-- One of the two checks of `check_space_left`: against `limit` megabytes, with the action for it
and the flag that says that the action was performed. -/
def checkLeft (limit : DaemonConf → Nat) (action : DaemonConf → FailureAction)
    (warning : Daemon → Bool) (setWarning : Bool → Daemon → Daemon) (bavail bsize : Nat) :
    LogM Unit := do
  let d ← get
  if bavail < limit d.config * (megabyte / bsize) then
    whenever (warning d = false) do
      doSpaceLeftAction (action d.config)
      -- allow unlimited rotation
      modify fun d => if action d.config = .rotate then d else setWarning true d
  else
    whenever (warning d = true ∧ action d.config = .syslog) (modify (setWarning false))

/-- The check against `space_left`. -/
def checkUserSpaceLeft : Nat → Nat → LogM Unit :=
  checkLeft DaemonConf.spaceLeft DaemonConf.spaceLeftAction Daemon.fsSpaceWarning
    fun b d => { d with fsSpaceWarning := b }

/-- The check against `admin_space_left`. -/
def checkAdminSpaceLeft : Nat → Nat → LogM Unit :=
  checkLeft DaemonConf.adminSpaceLeft DaemonConf.adminSpaceLeftAction Daemon.fsAdminSpaceWarning
    fun b d => { d with fsAdminSpaceWarning := b }

/-- `check_space_left`. -/
def checkSpaceLeft : LogM Unit := do
  let d ← get
  let buf ← outcome Calls.fstatfs
  match if d.logFd then buf else none with
  | none => pure ()
  | some (bavail, bsize) =>
    if bavail < 5 then do
      modify fun d => { d with fsSpaceLeft := false }
      doDiskFullAction
    else do
      checkUserSpaceLeft bavail bsize
      checkAdminSpaceLeft bavail bsize

/-! ## Events -/

/-- An event to be logged: its type, its text, and the sequence number to answer with if it came
over the network. -/
structure LogEvent where
  type : Int
  message : Bytes
  ack : Option Nat

/-- `send_ack`. -/
def sendAck (e : LogEvent) (type : Nat) (msg : String) : LogM Unit :=
  match e.ack with
  | none => pure ()
  | some sequenceId => modify fun d => { d with replies := d.replies ++ [⟨type, msg, sequenceId⟩] }

/-- `write_to_log` if the write fails. -/
def writeFailed (e : LogEvent) (errno : Errno) : LogM Unit :=
  if errno = .enospc then do
    sendAck e rmwTypeDiskfull "disk full"
    let d ← get
    whenever (d.fsSpaceLeft = true) do
      modify fun d => { d with fsSpaceLeft := false }
      doDiskFullAction
  else do
    sendAck e rmwTypeDiskerror "disk write error"
    doDiskErrorAction

/-- The checks of `write_to_log` after `rc` characters were written. -/
def checkAfterWrite (rc : Nat) : LogM Unit := do
  let d ← get
  whenever (d.config.daemonize = .background) do
    modify fun d => { d with logSize := d.logSize + rc }
    checkLogFileSize
    let d ← get
    whenever (d.logSize % 3 < 2) checkSpaceLeft

/-- `write_to_log` if the write succeeds. -/
def writeSucceeded (e : LogEvent) (rc : Nat) : LogM Unit := do
  modify fun d => { d with written := d.written ++ [e.message] }
  checkAfterWrite rc
  let d ← get
  sendAck e (if d.fsSpaceWarning then rmwTypeDisklow else rmwTypeAck) ""
  modify fun d => { d with diskErrWarning := 0 }

/-- `write_to_log`. -/
def writeToLog (e : LogEvent) : LogM Unit := do
  let d ← get
  if d.logFile = false then throw .write
  else do
    match ← outcome Calls.fprintf with
    | .error errno => writeFailed e errno
    | .ok rc => writeSucceeded e rc

/-- What is done about an error of `fflush`. -/
def flushFailed (errno : Errno) : LogM Unit := do
  let d ← get
  if errno = .enospc ∧ d.fsSpaceLeft then do
    set { d with fsSpaceLeft := false }
    doDiskFullAction
  else doDiskErrorAction

/-- `fflush_unlocked(log_file)` and what is done about an error. -/
def flushStream : LogM Unit := do
  modify fun d => { d with flushedNull := d.flushedNull || !d.logFile }
  match ← outcome Calls.fflush with
  | none => pure ()
  | some errno => flushFailed errno

/-- `fsync(log_fd)`, or the request to the thread that does it. -/
def syncFile : LogM Unit := do
  let d ← get
  whenever (d.config.daemonize = .background ∧ d.config.flush = .incremental) do
    let rc ← outcome Calls.fsync
    let d ← get
    whenever (d.logFd = false ∨ rc.isSome = true) doDiskErrorAction

/-- The manual flush of `handle_event`, every `freq` events. -/
def flushLog : LogM Unit := do
  let d ← get
  whenever (d.config.flush = .incremental ∨ d.config.flush = .incrementalAsync) do
    modify fun d => { d with count := (d.count + 1) % 2 ^ 32 }
    let d ← get
    whenever (d.count % d.config.freq = 0) do
      flushStream
      syncFile

/-- The last part of `handle_event`: write the event, or say why not. -/
def logEvent (e : LogEvent) : LogM Unit := do
  let d ← get
  if d.loggingSuspended = false ∧ (d.config.writeLogs = true ∨ d.config.daemonize = .foreground) then do
    writeToLog e
    flushLog
  else if d.config.writeLogs = false ∧ d.config.daemonize = .background then
    sendAck e rmwTypeAck ""
  else
    whenever (d.loggingSuspended = true)
      (sendAck e rmwTypeDiskerror "remote logging suspended")

/-- `handle_event`, for an event other than the request to reconfigure. -/
def handleEvent (e : LogEvent) : LogM Unit :=
  if e.type = auditDaemonRotate then do
    rotateLogsNow
    let d ← get
    if d.config.writeLogs = false ∧ d.config.daemonize = .background then pure () else logEvent e
  else logEvent e

/-! ## Signals -/

/-- `resume_logging`. -/
def resumeLogging : LogM Unit := do
  modify fun d => { d with loggingSuspended := false, fsSpaceLeft := true }
  let d ← get
  whenever (d.logFile = false) do
    let failed ← openAuditLog
    if failed then do
      suspendLogging
      doDiskErrorAction
    else checkLogFileSize
  modify fun d =>
    { d with diskErrWarning := 0, fsSpaceWarning := false, fsAdminSpaceWarning := false }

/-- The configuration after the first part of `reconfigure`, up to the items related to a single log
file.  Whether logs are written only changes in the background. -/
def DaemonConf.updateGeneral (o n : DaemonConf) : DaemonConf :=
  { o with
    diskErrorAction := n.diskErrorAction
    diskErrorExe := n.diskErrorExe
    numLogs := n.numLogs
    freq := n.freq
    writeLogs := if o.daemonize = .background then n.writeLogs else o.writeLogs
    logGroup := n.logGroup
    distributeNetworkEvents := n.distributeNetworkEvents
    maxLogSizeAction := n.maxLogSizeAction
    maxLogSize := n.maxLogSize }

/-- The configuration after the items related to a single log file. -/
def DaemonConf.updateFile (o n : DaemonConf) : DaemonConf :=
  { o with
    flush := n.flush
    logFile := n.logFile }

/-- The configuration after the items related to the space on the partition. -/
def DaemonConf.updateSpace (o n : DaemonConf) : DaemonConf :=
  { o with
    spaceLeft := n.spaceLeft
    spaceLeftPercent := n.spaceLeftPercent
    spaceLeftAction := n.spaceLeftAction
    spaceLeftExe := n.spaceLeftExe
    adminSpaceLeft := n.adminSpaceLeft
    adminSpaceLeftPercent := n.adminSpaceLeftPercent
    adminSpaceLeftAction := n.adminSpaceLeftAction
    adminSpaceLeftExe := n.adminSpaceLeftExe
    diskFullAction := n.diskFullAction
    diskFullExe := n.diskFullExe }

/-- `need_size_check`. -/
def DaemonConf.needSizeCheck (o n : DaemonConf) : Prop :=
  o.maxLogSizeAction ≠ n.maxLogSizeAction ∨ o.maxLogSize ≠ n.maxLogSize

/-- `need_reopen`. -/
def DaemonConf.needReopen (o n : DaemonConf) : Prop :=
  (o.writeLogs ≠ n.writeLogs ∧ o.daemonize = .background) ∨ o.logGroup ≠ n.logGroup ∨
    o.flush ≠ n.flush ∨ o.logFile ≠ n.logFile

/-- A new program to run asks for a check; none does not. -/
def newExe (o n : Option String) : Prop := n.isSome = true ∧ o ≠ n

/-- `need_space_check`. -/
def DaemonConf.needSpaceCheck (o n : DaemonConf) : Prop :=
  o.logFile ≠ n.logFile ∨ o.spaceLeft ≠ n.spaceLeft ∨ o.spaceLeftPercent ≠ n.spaceLeftPercent ∨
    o.spaceLeftAction ≠ n.spaceLeftAction ∨ newExe o.spaceLeftExe n.spaceLeftExe ∨
    o.adminSpaceLeft ≠ n.adminSpaceLeft ∨ o.adminSpaceLeftPercent ≠ n.adminSpaceLeftPercent ∨
    o.adminSpaceLeftAction ≠ n.adminSpaceLeftAction ∨
    newExe o.adminSpaceLeftExe n.adminSpaceLeftExe ∨
    o.diskFullAction ≠ n.diskFullAction ∨ newExe o.diskFullExe n.diskFullExe

instance (o n : Option String) : Decidable (newExe o n) := inferInstanceAs (Decidable (_ ∧ _))

instance (o n : DaemonConf) : Decidable (o.needSizeCheck n) := inferInstanceAs (Decidable (_ ∨ _))

instance (o n : DaemonConf) : Decidable (o.needReopen n) := inferInstanceAs (Decidable (_ ∨ _))

instance (o n : DaemonConf) : Decidable (o.needSpaceCheck n) := inferInstanceAs (Decidable (_ ∨ _))

/-- `reconfigure` if `need_reopen`. -/
def reopenAfterReconfigure : LogM Unit := do
  closeLog
  let failed ← openAuditLog
  if failed then do
    suspendLogging
    doDiskErrorAction
  else do
    modify fun d => { d with loggingSuspended := false }
    checkLogFileSize

/-- `setup_percentages`. -/
def setupPercentages : LogM Unit := do
  let user ← outcome Calls.percent
  let admin ← outcome Calls.percent
  modify fun d =>
    if d.config.writeLogs = true ∧ d.config.daemonize = .background then
      { d with config := { d.config with
        spaceLeft := if d.config.spaceLeftPercent = 0 then d.config.spaceLeft else user
        adminSpaceLeft := if d.config.adminSpaceLeftPercent = 0 then d.config.adminSpaceLeft
          else admin } }
    else d

/-- `reconfigure` if `need_space_check`.  The suspended flag is put back if it was not set anew. -/
def recheckSpace : LogM Unit := do
  let d ← get
  setupPercentages
  modify fun d =>
    { d with
      fsSpaceWarning := false
      fsAdminSpaceWarning := false
      fsSpaceLeft := true
      loggingSuspended := false }
  checkSpaceLeft
  modify fun d' =>
    if d'.loggingSuspended then d' else { d' with loggingSuspended := d.loggingSuspended }

/-- `reconfigure`. -/
def reconfigure (n : DaemonConf) : LogM Unit := do
  let o ← get
  modify fun d => { d with config := d.config.updateGeneral n, diskErrWarning := 0 }
  whenever (o.config.needSizeCheck n) do
    modify fun d => { d with loggingSuspended := false }
    checkLogFileSize
  modify fun d => { d with config := d.config.updateFile n }
  whenever (o.config.needReopen n) reopenAfterReconfigure
  modify fun d => { d with config := d.config.updateSpace n }
  whenever (o.config.needSpaceCheck n) recheckSpace

/-- What the daemon is asked to do: log an event, take over a configuration and log that (the text
of the record is `message`), or resume logging. -/
inductive Input
  | event (e : LogEvent)
  | reconfigure (n : DaemonConf) (message : Bytes)
  | resume

/-- `AUDIT_DAEMON_CONFIG`. -/
def auditDaemonConfig : Int := 1203

/-- `distribute_event`, `handle_event` for a request to reconfigure, and `resume_logging`.  The end
of an event is not logged. -/
def handle : Input → LogM Unit
  | .event e => if e.type = auditEoe then pure () else handleEvent e
  | .reconfigure n message => do
    LibAudit.Auditd.reconfigure n
    let d ← get
    if d.config.writeLogs = false ∧ d.config.daemonize = .background then pure ()
    else logEvent ⟨auditDaemonConfig, message, none⟩
  | .resume => resumeLogging

/-! ## Events from the network -/

/-- What follows the first blank. -/
def afterBlank (s : Bytes) : Option Bytes :=
  match s.dropWhile (· != 32) with
  | [] => none
  | _ :: rest => some rest

/-- `extract_type`: the type named by the first word, or by the second if the first is the node. -/
def extractType (str : Bytes) : Int :=
  match if str.head? = some 110 then afterBlank (str.drop 1) else some str with
  | none => -1
  | some ptr =>
    let word := ptr.takeWhile (· != 32)
    if ptr.contains 32 = false ∨ word.contains 61 = false then -1
    else auditNameToMsgType ((word.dropWhile (· != 61)).drop 1)

/-- `distribute_event` for an event from the network: its type is only looked at if such events are
passed on to the plugins. -/
def distributeNetworkEvent (e : Event) : LogM Unit := do
  let d ← get
  handle (.event ⟨if d.config.distributeNetworkEvents then extractType e.message else 0, e.message,
    some e.sequenceId⟩)

/-! ## A daemon with the defaults -/

/-- A configuration with the defaults of `auditd.conf`, as far as they matter here. -/
def defaultConf : DaemonConf where
  daemonize := .background
  writeLogs := true
  logFile := "/var/log/audit/audit.log"
  logGroup := 0
  flush := .incrementalAsync
  freq := 50
  numLogs := 5
  maxLogSize := 8
  maxLogSizeAction := .rotate
  spaceLeft := 75
  spaceLeftPercent := 0
  spaceLeftAction := .syslog
  spaceLeftExe := none
  adminSpaceLeft := 50
  adminSpaceLeftPercent := 0
  adminSpaceLeftAction := .suspend
  adminSpaceLeftExe := none
  diskFullAction := .suspend
  diskFullExe := none
  diskErrorAction := .suspend
  diskErrorExe := none
  distributeNetworkEvents := false

/-- All calls succeed, on a partition with space left. -/
def goodCalls : Calls where
  malloc _ := true
  rename _ := none
  access _ := 0
  openLog _ := some 0
  fprintf _ := .ok 20
  fflush _ := none
  fsync _ := none
  fstatfs _ := some (1000000, 4096)
  percent _ := 0

/-- A daemon that has opened its log. -/
def startedDaemon : Daemon where
  config := defaultConf
  calls := goodCalls
  tick := 0
  logFile := true
  logFd := true
  diskErrWarning := 0
  fsSpaceWarning := false
  fsAdminSpaceWarning := false
  fsSpaceLeft := true
  loggingSuspended := false
  knownLogs := 0
  lastLog := 1
  logSize := 0
  count := 0
  flushedNull := false
  written := []
  replies := []

end LibAudit.Auditd
