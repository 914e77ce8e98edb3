import LibAudit.Spool.Queue
import LibAudit.Wire.Rmw

/-!
# Sending events to the server: `audisp-remote.c`

`audisp-remote` keeps events in the spool queue and sends the one at the head to the server, in
managed format and over TCP.  `relay_sock_managed` gives it a new sequence number, sends it and
waits for a reply, again and again until one comes, the tries are used up or the time is; what a
reply means is decided by one of several handlers, each of which ends in `do_action` with the
action the configuration has for it.  `send_one` takes the event off the queue if the outcome of
all that is not negative.

Connecting, writing, reading and the clock are an arbitrary `Net`, looked up by the number of the
call.  The queue is the one of `LibAudit.Spool.Queue`, with all its failures.  `main` runs the
pieces in an order that depends on `select` and on signals; here they are `Action`s, performed in
any order.  `history` is what an observer of the network and of the queue would write down.

Lines written to syslog, and the programs that are run by some of the actions, are left out.
-/

namespace LibAudit.Remote

open Wire Spool

/-! ## Configuration -/

/-- `failure_action_t`. -/
inductive FailureAction
  | ignore | syslog | warnOnceCont | warnOnce | exec | reconnect | suspend | single | halt | stop
  deriving DecidableEq, Repr

/-- `overflow_action_t`. -/
inductive OverflowAction
  | ignore | syslog | suspend | single | halt
  deriving DecidableEq, Repr

/-- The part of `remote_conf_t` that decides what happens to events. -/
structure Config where
  maxTriesPerRecord : Nat
  maxTimePerRecord : Nat
  networkFailureAction : FailureAction
  diskLowAction : FailureAction
  diskFullAction : FailureAction
  diskErrorAction : FailureAction
  remoteEndingAction : FailureAction
  genericErrorAction : FailureAction
  genericWarningAction : FailureAction
  queueErrorAction : FailureAction
  startupFailureAction : FailureAction
  overflowAction : OverflowAction

/-! ## The network -/

/-- How `init_sock` comes out. -/
inductive Connect
  | success
  | permanent
  | temporary

/-- How the calls of `write` made by `ar_write` come out: the number of bytes that were written, or
an error. -/
inductive Write
  | wrote (n : Nat)
  | failed (epipe : Bool)

/-- How the calls of `read` made by `ar_read` come out: everything that was asked for, the end of
the stream after `n` bytes (`errno` may be left over from an interrupted call), an error, or no
answer in time. -/
inductive Read
  | full (byte : Nat → UInt8)
  | ended (n : Nat) (clean : Bool)
  | failed (epipe : Bool)
  | timeout

/-- What the network and the clock do, by the number of the call. -/
structure Net where
  connect : Nat → Connect
  write : Nat → Write
  read : Nat → Read
  clock : Nat → Int

/-! ## The state -/

/-- What an observer sees: an event (`none` is a heartbeat) sent with a sequence number, a reply, and
an event taken off the queue. -/
inductive Entry
  | sent (seq : Nat) (event : Option Bytes)
  | reply (header : Header)
  | removed (event : Bytes)
  deriving DecidableEq

/-- The global data of `audisp-remote`. -/
structure State where
  config : Config
  net : Net
  tick : Nat
  queue : St
  suspend : Bool
  stop : Bool
  transportOk : Bool
  /-- `sock >= 0`. -/
  sock : Bool
  remoteEnded : Bool
  connectedOnce : Bool
  warned : Nat
  sequenceId : Nat
  history : List Entry
  /-- The process has been killed. -/
  dead : Bool

namespace State

/-- One more call has been made. -/
def next (r : State) : State := { r with tick := r.tick + 1 }

/-- Add to what has been seen. -/
def note (e : Entry) (r : State) : State := { r with history := r.history ++ [e] }

end State

/-! ## Actions -/

/-- `do_action`: zero if sending goes on as if nothing had happened. -/
def doAction (action : FailureAction) (r : State) : Int × State :=
  match action with
  | .ignore => (0, r)
  | .syslog => (0, r)
  | .exec => (0, r)
  | .warnOnceCont => if r.warned &&& 1 ≠ 0 then (-1, r) else (0, { r with warned := r.warned ||| 1 })
  | .warnOnce => if r.warned &&& 2 ≠ 0 then (-1, r) else (-1, { r with warned := r.warned ||| 2 })
  | .suspend => (-1, { r with suspend := true })
  | .reconnect => (-1, r)
  | .single => (-1, r)
  | .halt => (-1, r)
  | .stop => (-1, { r with stop := true })

/-- `stop_sock`, which is all `stop_transport` does for TCP. -/
def stopTransport (r : State) : State := { r with sock := false, transportOk := false }

/-- `network_failure_handler`. -/
def networkFailureHandler (r : State) : Int × State := doAction r.config.networkFailureAction r

/-- `remote_disk_low_handler`. -/
def remoteDiskLowHandler (r : State) : Int × State := doAction r.config.diskLowAction r

/-- `remote_disk_full_handler`. -/
def remoteDiskFullHandler (r : State) : Int × State := doAction r.config.diskFullAction r

/-- `remote_disk_error_handler`. -/
def remoteDiskErrorHandler (r : State) : Int × State := doAction r.config.diskErrorAction r

/-- `remote_server_ending_handler`: the connection is given up first. -/
def remoteServerEndingHandler (r : State) : Int × State :=
  doAction r.config.remoteEndingAction { stopTransport r with remoteEnded := true }

/-- `generic_remote_error_handler`. -/
def genericRemoteErrorHandler (r : State) : Int × State := doAction r.config.genericErrorAction r

/-- `generic_remote_warning_handler`. -/
def genericRemoteWarningHandler (r : State) : Int × State :=
  doAction r.config.genericWarningAction r

/-- `startup_failure_handler`. -/
def startupFailureHandler (r : State) : Int × State := doAction r.config.startupFailureAction r

/-- `queue_error`, after a call of the queue that did not return zero. -/
def queueError (e : Fault) (r : State) : State :=
  match e with
  | .errno _ => (doAction r.config.queueErrorAction r).2
  | _ => { r with dead := true }

/-- `do_overflow_action`. -/
def doOverflowAction (r : State) : State :=
  match r.config.overflowAction with
  | .suspend => { r with suspend := true }
  | _ => r

/-! ## Transport -/

/-- `init_transport`: zero (`ET_SUCCESS`), `ET_PERMANENT` or `ET_TEMPORARY`. -/
def initTransport (r : State) : Int × State :=
  if r.sock then (0, { r with transportOk := true })
  else
    match r.net.connect r.tick with
    | .success => (0, { r.next with sock := true, transportOk := true })
    | .permanent => (-1, r.next)
    | .temporary => (-2, { r.next with remoteEnded := true })

/-- `ar_write`. -/
def arWrite (len : Nat) (r : State) : Int × State :=
  match r.net.write r.tick with
  | .wrote n => ((min n len : Nat), r.next)
  | .failed epipe => (-1, if epipe then stopTransport r.next else r.next)

/-- `ar_read`, with the bytes if all of them came. -/
def arRead (len : Nat) (r : State) : Int × Bytes × State :=
  match r.net.read r.tick with
  | .full byte => (len, (List.range len).map byte, r.next)
  | .ended n clean =>
    ((min n (len - 1) : Nat), [],
      if clean then { stopTransport r.next with remoteEnded := true } else r.next)
  | .failed epipe => (-1, [], if epipe then stopTransport r.next else r.next)
  | .timeout => (-1, [], r.next)

/-- `send_msg_tcp`: whether it returns zero. -/
def sendMsgTcp (mlen : Nat) (r : State) : Bool × State :=
  let (rc, r) := arWrite rmwHeaderSize r
  if rc ≤ 0 then (false, r)
  else if 0 < mlen then
    let (rc, r) := arWrite mlen r
    (decide (0 < rc), r)
  else (true, r)

/-- `recv_msg_tcp`: the header of the reply, if it returns zero.  The number of bytes of text that
were read is compared with `rlen` as an unsigned number, so a failed read counts as enough. -/
def recvMsgTcp (r : State) : Option Bytes × State :=
  let (rc, header, r) := arRead rmwHeaderSize r
  if rc < 16 then (none, r)
  else if isMagic header rmwHeaderSize = false then (none, r)
  else
    let rlen := (unpackHeader header).len
    if maxAuditMessageLength < rlen then (none, r)
    else if 0 < rlen then
      let (rc, _, r) := arRead rlen r
      if 0 ≤ rc ∧ rc < rlen then (none, r) else (some header, r)
    else (some header, r)

/-! ## Replies -/

/-- What `relay_sock_managed` makes of a reply that has the right sequence number. -/
def handleReply (type : Nat) (r : State) : Int × State :=
  if type = rmwTypeDisklow then remoteDiskLowHandler r
  else if type = rmwTypeDiskfull then remoteDiskFullHandler (stopTransport r)
  else if type = rmwTypeDiskerror then remoteDiskErrorHandler (stopTransport r)
  else if type &&& rmwTypeFatalmask ≠ 0 then genericRemoteErrorHandler r
  else if type &&& rmwTypeWarnmask ≠ 0 then genericRemoteWarningHandler r
  else (0, r)

/-- `relay_sock_managed` from the label `try_again` on.  The first argument is how many tries are
left, one more than `max_tries_per_record` at first; `start` is `then`. -/
def tryAgain (s : Option Bytes) : Nat → Int → State → Int × State
  | 0, _, r => (-1, (networkFailureHandler r.next).2)
  | left + 1, start, r =>
    let now := r.net.clock r.tick
    let start := if start = 0 then now else start
    let r := r.next
    if (r.config.maxTimePerRecord : Int) < now - start then (-1, (networkFailureHandler r).2)
    else
      let (rc, r) := if r.transportOk then (0, r) else initTransport r
      if rc ≠ 0 then tryAgain s left start r
      else
        match sendMsgTcp (s.getD []).length r with
        | (false, r) => tryAgain s left start (stopTransport r)
        | (true, r) =>
          match recvMsgTcp (r.note (.sent r.sequenceId s)) with
          | (none, r) => tryAgain s left start (stopTransport r)
          | (some header, r) =>
            let header := unpackHeader header
            let r := r.note (.reply header)
            -- the sequence number does not matter if the other end is going down
            if header.type = rmwTypeEnding then remoteServerEndingHandler r
            else if header.seq ≠ r.sequenceId % 2 ^ 32 then tryAgain s left start (stopTransport r)
            else handleReply header.type r

/-- `relay_sock_managed`, and so `relay_event`. -/
def relayEvent (s : Option Bytes) (r : State) : Int × State :=
  tryAgain s (r.config.maxTriesPerRecord + 1) 0 { r with sequenceId := r.sequenceId + 1 }

/-! ## The pieces of the main loop -/

/-- `send_one`. -/
def sendOne (r : State) : State :=
  if r.suspend ∨ r.transportOk = false then r
  else
    match qPeek maxAuditMessageLength r.queue with
    | .error e queue => queueError e { r with queue := queue }
    | .ok peek queue =>
      let r := { r with queue := queue }
      if peek.ret = 0 then r
      else if peek.ret < 0 then queueError (.errno (.other 0)) r
      else
        -- all but the NUL
        let event := peek.buf.dropLast
        match relayEvent (some event) r with
        | (rc, r) =>
          if rc < 0 then r
          else
            match qDropHead r.queue with
            | .ok _ queue => { r with queue := queue, warned := 0 }.note (.removed event)
            | .error e queue =>
              queueError e ({ r with queue := queue, warned := 0 }.note (.removed event))

/-- `check_message_managed`, for a message that comes unasked for. -/
def checkMessageManaged (r : State) : State :=
  match recvMsgTcp r with
  | (none, r) => stopTransport r
  | (some header, r) =>
    let type := (unpackHeader header).type
    if type = rmwTypeEnding then (remoteServerEndingHandler r).2
    else if type = rmwTypeDisklow then (remoteDiskLowHandler r).2
    else if type = rmwTypeDiskfull then (remoteDiskFullHandler (stopTransport r)).2
    else if type = rmwTypeDiskerror then (remoteDiskErrorHandler (stopTransport r)).2
    else r

/-- `type=EOE`. -/
def typeEoe : Bytes := [116, 121, 112, 101, 61, 69, 79, 69]

/-- Whether a line of input is to be kept: not an `EOE` record, and not malformed. -/
def keepLine (event : Bytes) : Bool :=
  if event.head? = some 116 then !(typeEoe.isPrefixOf event)
  else
    match event.dropWhile (· != 32) with
    | [] => false
    | _ :: rest => !(typeEoe.isPrefixOf rest)

/-- The connection attempt before a line of input is looked at. -/
def reconnect (r : State) : State :=
  if r.transportOk = false ∧ r.remoteEnded ∧
      (r.config.remoteEndingAction = .reconnect ∨ r.connectedOnce = false) then
    match initTransport r with
    | (0, r) => { r with remoteEnded := false, connectedOnce := true }
    | (_, r) => if r.connectedOnce then r else (startupFailureHandler r).2
  else r

/-- Append a line of input to the queue, if it is to be kept. -/
def enqueue (event : CString) (r : State) : State :=
  if keepLine event.bytes then
    match qAppend event r.queue with
    | .ok _ queue => { r with queue := queue }
    | .error (.errno .enospc) queue => doOverflowAction { r with queue := queue }
    | .error e queue => queueError e { r with queue := queue }
  else r

/-- A line of input. -/
def input (event : CString) (r : State) : State := enqueue event (reconnect r)

/-- What the main loop, or a signal, can do next. -/
inductive Action
  | sendOne
  | sendHeartbeat
  | checkMessage
  | input (event : CString)
  | hup
  | term
  | user2

/-- One piece of the main loop. -/
def act : Action → State → State
  | .sendOne, r => sendOne r
  | .sendHeartbeat, r => (relayEvent none r).2
  | .checkMessage, r => checkMessageManaged r
  | .input event, r => input event r
  | .hup, r => stopTransport r
  | .term, r => { r with stop := true }
  | .user2, r => { r with suspend := false }

/-- A process that has been killed does nothing any more. -/
def perform (action : Action) (r : State) : State := if r.dead then r else act action r

end LibAudit.Remote
