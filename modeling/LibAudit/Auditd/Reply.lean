import LibAudit.Auditd.Steps
import LibAudit.Auditd.Stream

/-!
# Replies to network clients

A client that sends a message waits for a reply with the number of the message.  The reply is sent
from `write_to_log`, or from `handle_event` if nothing is written; everything else the daemon does
with an event (rotation, the checks after a write, the flush) is silent: it sends no reply, writes no
record and does not touch the configuration.

`answered` says when a message gets its one reply.  It does not if there is no memory for the
event; nor, where network events are passed on to the plugins, if its text says that it is the end of
an event, which is not logged, or a request to rotate logs that are not written.  Every other message
gets one if the log stream is in order (`StreamSafe`): nothing is written, or the stream is open and no
action takes it away in the course of the event.
-/

namespace LibAudit.Auditd

open Wire Spool Tables Hoare

/-! ## The reply -/

/-- A reply that says what became of the record: a good one only if it was written, or if logs are
not written; otherwise a fatal one. -/
def Reply.Honest (r : Reply) (conf : DaemonConf) (written : Prop) : Prop :=
  if r.type = rmwTypeAck ∨ r.type = rmwTypeDisklow then written ∨ conf.writeLogs = false
  else r.type &&& rmwTypeFatalmask ≠ 0

variable {d : Daemon} {message : Bytes}

/-- The text of a message, as it is logged. -/
def Call.text (c : Call) : Bytes :=
  (replaceEventMsg (c.terminated.drop rmwHeaderSize) (unpackHeader c.header).seq).message

/-- `client_message`, for a message other than a heartbeat. -/
def receive (c : Call) : LogM Unit :=
  match c.event with
  | none => pure ()
  | some e => distributeNetworkEvent e

/-- The type of an event from the network: only looked at if such events are passed on. -/
def networkType (conf : DaemonConf) (message : Bytes) : Int :=
  if conf.distributeNetworkEvents then extractType message else 0

/-- An event that is neither logged nor answered. -/
def Skipped (conf : DaemonConf) (message : Bytes) : Prop :=
  networkType conf message = auditEoe ∨
    (networkType conf message = auditDaemonRotate ∧ conf.writeLogs = false ∧
      conf.daemonize = .background)

theorem receive_eq {c : Call} (hmagic : isMagic c.header c.length = true)
    (htype : (unpackHeader c.header).type ≠ rmwTypeHeartbeat) (hcalloc : c.calloc = true) :
    receive c = distributeNetworkEvent
      (replaceEventMsg (c.terminated.drop rmwHeaderSize) (unpackHeader c.header).seq) := by
  rw [receive, Call.event, if_pos hmagic, if_neg htype, hcalloc]
  rfl

theorem sequenceId_replaceEventMsg (buf : Bytes) (sequenceId : Nat) :
    (replaceEventMsg buf sequenceId).sequenceId = sequenceId := by
  rw [replaceEventMsg]
  split <;> rfl

/-- A message with this text, and the number 7. -/
def messageSeven (text : String) : Call where
  length := rmwHeaderSize + (ascii text).length
  header := packHeader 0 rmwTypeMessage (ascii text).length 7 ++ ascii text ++ [0]
  calloc := true

/-- A daemon that passes network events on to its plugins. -/
def distributingDaemon : Daemon :=
  { startedDaemon with config := { defaultConf with distributeNetworkEvents := true } }

end LibAudit.Auditd
