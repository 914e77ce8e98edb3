import LibAudit.Auditd.Reply

/-!
# Who controls the daemon

Some records are requests to the daemon itself: to rotate its logs, to take over a configuration, to
resume logging.  They are meant to be generated by the daemon's own handlers of signals.  An event from
the network gets its type from its text if such events are passed on to the plugins, and then goes the
same way.  A request to reconfigure is not accepted from there, but a request to rotate the logs is.

`Received.traced` is the daemon with a record of the requests it follows.  `controlled_iff` says for which
messages from the network such requests are never followed, and that then the texts of the messages make
no difference: what the daemon does with two sequences of messages of the same sizes is the same.
-/

namespace LibAudit.Auditd

open Spool Tables Hoare List Alike

theorem Like.refl (d : Daemon) : Like d d := ⟨d.written, rfl⟩

namespace Blind

theorem whenever {c : Prop} [Decidable c] {m m' : LogM Unit} (h : Alike Like m m') :
    Alike Like (LibAudit.Auditd.whenever c m) (LibAudit.Auditd.whenever c m') :=
  .ite h (.pure ())

theorem modify {f : Daemon → Daemon}
    (h : ∀ d w, ∃ w', f { d with written := w } = { f d with written := w' }) :
    Blind (modify f) := by
  refine Alike.modify ?_
  rintro d _ ⟨w, rfl⟩
  exact h d w

/-- The state that is read differs in the records. -/
theorem read {α : Type} {f f' : Daemon → LogM α}
    (h : ∀ d w, Alike Like (f d) (f' { d with written := w })) :
    Alike Like (get >>= f) (get >>= f') := by
  refine .read ?_
  rintro d _ ⟨w, rfl⟩
  exact h d w

end Blind

open Blind (modify)

/-! ## Events with different texts -/

section Texts

variable {e e' : LogEvent} (h : e.ack = e'.ack)

include h

theorem alike_sendAck (type : Nat) (msg : String) :
    Alike Like (sendAck e type msg) (sendAck e' type msg) := by
  rw [sendAck, sendAck, h]
  split
  · exact .pure ()
  · exact modify fun _ w => ⟨w, rfl⟩

theorem alike_writeFailed (errno : Errno) : Alike Like (writeFailed e errno) (writeFailed e' errno) := by
  refine .ite ?_ ?_
  · exact .bind (alike_sendAck h _ _) fun _ => steps_diskFull.blind
  · exact .bind (alike_sendAck h _ _) fun _ => steps_doDiskErrorAction.blind

theorem alike_writeSucceeded (rc : Nat) : Alike Like (writeSucceeded e rc) (writeSucceeded e' rc) := by
  refine Alike.bind (Alike.modify ?_) fun _ => ?_
  · rintro d _ ⟨w, rfl⟩
    exact ⟨w ++ [e'.message], rfl⟩
  refine Alike.bind (steps_checkAfterWrite rc).blind fun _ => Blind.read fun d w => ?_
  exact Alike.bind (alike_sendAck h _ _) fun _ => modify fun _ w => ⟨w, rfl⟩

theorem alike_writeToLog : Alike Like (writeToLog e) (writeToLog e') := by
  refine Blind.read fun d w => ite (throw _) (Alike.bind (Steps.outcome _).blind fun rc => ?_)
  split
  · exact alike_writeFailed h _
  · exact alike_writeSucceeded h _

theorem alike_logEvent : Alike Like (logEvent e) (logEvent e') := by
  refine Blind.read fun d w => ite ?_ (ite (alike_sendAck h _ _) ?_)
  · exact Alike.bind (alike_writeToLog h) fun _ => steps_flushLog.blind
  · exact Blind.whenever (alike_sendAck h _ _)

end Texts

theorem blind_handleEvent (e : LogEvent) : Blind (handleEvent e) := by
  refine .ite (.bind steps_rotateLogsNow.blind fun _ => ?_) (alike_logEvent rfl)
  exact Blind.read fun d w => ite (pure ()) (alike_logEvent rfl)

theorem blind_recheckSpace : Blind recheckSpace := by
  refine Blind.read fun d w => Alike.bind ?_ fun _ => ?_
  · refine Alike.bind (Steps.outcome _).blind fun _ => Alike.bind (Steps.outcome _).blind fun _ =>
      modify fun d w => ⟨w, ?_⟩
    split <;> rfl
  refine Alike.bind (modify fun _ w => ⟨w, rfl⟩) fun _ =>
    Alike.bind steps_checkSpaceLeft.blind fun _ => modify fun d w => ⟨w, ?_⟩
  split <;> rfl

theorem blind_reconfigure (n : DaemonConf) : Blind (reconfigure n) := by
  refine Blind.read fun o w => Alike.bind (modify fun _ w => ⟨w, rfl⟩) fun _ => ?_
  refine Alike.bind (Blind.whenever ?_) fun _ =>
    Alike.bind (modify fun _ w => ⟨w, rfl⟩) fun _ => ?_
  · exact Alike.bind (modify fun _ w => ⟨w, rfl⟩) fun _ => steps_checkLogFileSize.blind
  refine Alike.bind (Blind.whenever steps_reopenAfterReconfigure.blind) fun _ => ?_
  exact Alike.bind (modify fun _ w => ⟨w, rfl⟩) fun _ => Blind.whenever blind_recheckSpace

/-- **Nothing the daemon does** depends on the records it has written. -/
theorem blind_handle (i : Input) : Blind (handle i) := by
  cases i with
  | event e => exact ite (pure ()) (blind_handleEvent e)
  | reconfigure n message =>
    exact Alike.bind (blind_reconfigure n) fun _ => Blind.read fun d w =>
      ite (pure ()) (alike_logEvent rfl)
  | resume => exact steps_resumeLogging.blind

/-! ## Requests -/

/-- A request that the daemon follows. -/
inductive Control
  | rotate
  | reconfigure (n : DaemonConf)
  | resume
  deriving DecidableEq

/-- What the daemon receives: from its own handlers and the kernel, or from the network. -/
inductive Received
  | own (i : Input)
  | network (e : Event)

/-- `distribute_event`. -/
def Received.act : Received → LogM Unit
  | .own i => handle i
  | .network e => distributeNetworkEvent e

/-- A computation that records the requests it follows. -/
abbrev TraceM := EStateM StreamFault (Daemon × List Control)

/-- A computation that follows no request. -/
def quietly (m : LogM Unit) : TraceM Unit := fun s =>
  match m s.1 with
  | .ok a d => .ok a (d, s.2)
  | .error e d => .error e (d, s.2)

/-- A computation that follows a request. -/
def performing (c : Control) (m : LogM Unit) : TraceM Unit := do
  modify fun s => (s.1, s.2 ++ [c])
  quietly m

/-- `handle_event`, with a record of the requests it follows. -/
def handleEventTraced (e : LogEvent) : TraceM Unit :=
  if e.type = auditDaemonRotate then do
    performing .rotate rotateLogsNow
    quietly do
      let d ← get
      if d.config.writeLogs = false ∧ d.config.daemonize = .background then pure () else logEvent e
  else quietly (logEvent e)

/-- `handle`, with a record of the requests it follows. -/
def handleTraced : Input → TraceM Unit
  | .event e => if e.type = auditEoe then pure () else handleEventTraced e
  | .reconfigure n message => do
    performing (.reconfigure n) (reconfigure n)
    quietly do
      let d ← get
      if d.config.writeLogs = false ∧ d.config.daemonize = .background then pure ()
      else logEvent ⟨auditDaemonConfig, message, none⟩
  | .resume => performing .resume resumeLogging

/-- `distribute_event`, with a record of the requests it follows. -/
def Received.traced : Received → TraceM Unit
  | .own i => handleTraced i
  | .network e => do
    let s ← get
    handleTraced (.event ⟨networkType s.1.config e.message, e.message, some e.sequenceId⟩)

/-- The requests followed for each of the things received, up to a fault. -/
def performed : Daemon → List Received → List (List Control)
  | _, [] => []
  | d, r :: rs =>
    match r.traced (d, []) with
    | .ok _ s => s.2 :: performed s.1 rs
    | .error _ s => [s.2]

/-- Everything that is received, one after the other. -/
def actAll : List Received → LogM Unit
  | [] => pure ()
  | r :: rs => do
    r.act
    actAll rs

/-! ## The record does not change what happens -/

/-- The requests in an input. -/
def Input.controls : Input → List Control
  | .event e => if e.type = auditDaemonRotate then [.rotate] else []
  | .reconfigure n _ => [.reconfigure n]
  | .resume => [.resume]

/-- The requests in what is received. -/
def Received.controls (conf : DaemonConf) : Received → List Control
  | .own i => i.controls
  | .network e => if networkType conf e.message = auditDaemonRotate then [.rotate] else []

/-- The outcome of a computation, with a record. -/
def recording (cs : List Control) :
    EStateM.Result StreamFault Daemon Unit → EStateM.Result StreamFault (Daemon × List Control) Unit
  | .ok a d => .ok a (d, cs)
  | .error e d => .error e (d, cs)

theorem quietly_eq (m : LogM Unit) (d : Daemon) (cs : List Control) :
    quietly m (d, cs) = recording cs (m d) := by
  rw [quietly]
  cases m d <;> rfl

theorem performing_eq (c : Control) (m : LogM Unit) (d : Daemon) (cs : List Control) :
    performing c m (d, cs) = recording (cs ++ [c]) (m d) :=
  quietly_eq m d (cs ++ [c])

theorem performing_bind_eq (c : Control) (m k : LogM Unit) (d : Daemon) (cs : List Control) :
    (do performing c m; quietly k) (d, cs) = recording (cs ++ [c]) ((do m; k) d) := by
  show EStateM.bind (performing c m) (fun _ => quietly k) (d, cs) =
    recording (cs ++ [c]) (EStateM.bind m (fun _ => k) d)
  rw [EStateM.bind, EStateM.bind, performing_eq]
  cases m d with
  | ok a d' => exact quietly_eq k d' _
  | error e d' => rfl

theorem handleTraced_eq (i : Input) (d : Daemon) (cs : List Control) :
    handleTraced i (d, cs) = recording (cs ++ i.controls) (handle i d) := by
  cases i with
  | event e =>
    rw [handleTraced, handle, Input.controls]
    by_cases heoe : e.type = auditEoe
    · have hrotate : ¬ e.type = auditDaemonRotate := by rw [heoe]; decide
      rw [if_pos heoe, if_pos heoe, if_neg hrotate, append_nil]
      rfl
    · rw [if_neg heoe, if_neg heoe, handleEventTraced, handleEvent]
      by_cases hrotate : e.type = auditDaemonRotate
      · rw [if_pos hrotate, if_pos hrotate, if_pos hrotate]
        exact performing_bind_eq _ _ _ d cs
      · rw [if_neg hrotate, if_neg hrotate, if_neg hrotate, append_nil]
        exact quietly_eq _ d cs
  | reconfigure n message => exact performing_bind_eq _ _ _ d cs
  | resume => exact performing_eq _ _ d cs

/-- **With or without a record** the daemon does the same, and the requests that it follows are those in
what it receives. -/
theorem Received.traced_eq (r : Received) (d : Daemon) (cs : List Control) :
    r.traced (d, cs) = recording (cs ++ r.controls d.config) (r.act d) := by
  cases r with
  | own i => exact handleTraced_eq i d cs
  | network e =>
    exact handleTraced_eq (.event ⟨networkType d.config e.message, e.message, some e.sequenceId⟩) d cs

theorem performed_cons (d : Daemon) (r : Received) (rs : List Received) :
    performed d (r :: rs) = r.controls d.config ::
      match r.act d with
      | .ok _ d' => performed d' rs
      | .error _ _ => [] := by
  rw [performed, r.traced_eq, nil_append]
  cases r.act d <;> rfl

/-! ## Messages that are no requests -/

/-- No request is followed for anything that came from the network. -/
def Undirected (d : Daemon) (rs : List Received) : Prop :=
  ∀ p ∈ rs.zip (performed d rs), ∀ e, p.1 = .network e → p.2 = []

/-- No message from the network, when it is looked at, is of the type of a request to rotate the
logs. -/
def Harmless : Daemon → List Received → Prop
  | _, [] => True
  | d, r :: rs =>
    (∀ e, r = .network e → networkType d.config e.message ≠ auditDaemonRotate) ∧
      ∀ d', r.act d = .ok () d' → Harmless d' rs

theorem Received.controls_network_eq_nil {conf : DaemonConf} {e : Event} :
    (Received.network e).controls conf = [] ↔ networkType conf e.message ≠ auditDaemonRotate := by
  simp [Received.controls]

theorem undirected_iff (rs : List Received) : ∀ d, Undirected d rs ↔ Harmless d rs := by
  induction rs with
  | nil => exact fun d => iff_of_true (fun p hp => by simp [performed] at hp) trivial
  | cons r rs ih =>
    intro d
    rw [Undirected, performed_cons, zip_cons_cons, forall_mem_cons, Harmless]
    refine and_congr ?_ ?_
    · refine forall_congr' fun e => imp_congr_right fun he => ?_
      obtain rfl : r = .network e := he
      exact Received.controls_network_eq_nil
    · cases hact : r.act d with
      | ok a d' =>
        exact (ih d').trans ⟨fun h d₂ heq => by cases heq; exact h, fun h => h d' rfl⟩
      | error e d' => exact iff_of_true (fun p hp => by simp at hp) fun d₂ heq => by cases heq

/-! ## Messages with other texts -/

/-- The number of characters in the log for a message from the network.  The end of an event is not
logged. -/
def logSize (conf : DaemonConf) (e : Event) : Nat :=
  if networkType conf e.message = auditEoe then 0 else e.message.length + 1

/-- From `d` on the same is received but for the texts of messages from the network, which take up the
same space in the log. -/
inductive TextsDiffer : Daemon → List Received → List Received → Prop
  | nil (d : Daemon) : TextsDiffer d [] []
  | own {d : Daemon} {rs rs' : List Received} (i : Input)
      (h : ∀ d', handle i d = .ok () d' → TextsDiffer d' rs rs') :
      TextsDiffer d (.own i :: rs) (.own i :: rs')
  | network {d : Daemon} {rs rs' : List Received} {e e' : Event}
      (hseq : e.sequenceId = e'.sequenceId) (hsize : logSize d.config e = logSize d.config e')
      (h : ∀ d', distributeNetworkEvent e d = .ok () d' → TextsDiffer d' rs rs') :
      TextsDiffer d (.network e :: rs) (.network e' :: rs')

/-- Two runs come to the same end: what they leave differs only in the records written. -/
def SameEnd : EStateM.Result StreamFault Daemon Unit → EStateM.Result StreamFault Daemon Unit → Prop
  | .ok _ d, .ok _ d' => Like d d'
  | .error e d, .error e' d' => e = e' ∧ Like d d'
  | _, _ => False

variable {d d' : Daemon} {rs : List Received}

theorem sameEnd_of_alike {m m' : LogM Unit} (h : Alike Like m m')
    (hd : Like d d') : SameEnd (m d) (m' d') := by
  cases hm : m d with
  | ok a t =>
    obtain ⟨t', hm', ht⟩ := h.of_ok hd hm
    rw [hm']
    exact ht
  | error e t =>
    obtain ⟨t', hm', ht⟩ := h.of_error hd hm
    rw [hm']
    exact ⟨rfl, ht⟩

theorem SameEnd.elim {x y : EStateM.Result StreamFault Daemon Unit} (h : SameEnd x y) :
    (∃ d d', x = .ok () d ∧ y = .ok () d' ∧ Like d d') ∨
      ∃ e d d', x = .error e d ∧ y = .error e d' ∧ Like d d' := by
  cases x with
  | ok a d =>
    cases y with
    | ok a' d' => exact .inl ⟨d, d', rfl, rfl, h⟩
    | error e' d' => exact False.elim h
  | error e d =>
    cases y with
    | ok a' d' => exact False.elim h
    | error e' d' =>
      obtain ⟨rfl, hd⟩ := h
      exact .inr ⟨e, d, d', rfl, rfl, hd⟩

theorem eoe_iff_of_logSize_eq {conf : DaemonConf} {e e' : Event} (h : logSize conf e = logSize conf e') :
    networkType conf e.message = auditEoe ↔ networkType conf e'.message = auditEoe := by
  rw [logSize, logSize] at h
  split at h <;> split at h
  · simp [*]
  · omega
  · omega
  · simp [*]

/-- One message, with one text or another. -/
theorem sameEnd_network {e e' : Event} (hd : Like d d')
    (hseq : e.sequenceId = e'.sequenceId) (hsize : logSize d.config e = logSize d.config e')
    (hrotate : networkType d.config e.message ≠ auditDaemonRotate)
    (hrotate' : networkType d.config e'.message ≠ auditDaemonRotate) :
    SameEnd (distributeNetworkEvent e d) (distributeNetworkEvent e' d') := by
  have heoe := eoe_iff_of_logSize_eq hsize
  obtain ⟨w, rfl⟩ := hd
  show SameEnd (handle (.event ⟨networkType d.config e.message, e.message, some e.sequenceId⟩) d)
    (handle (.event ⟨networkType d.config e'.message, e'.message, some e'.sequenceId⟩) _)
  rw [handle, handle, handleEvent, handleEvent]
  rw [if_neg hrotate, if_neg hrotate']
  by_cases h : networkType d.config e.message = auditEoe
  · rw [if_pos h, if_pos (heoe.mp h)]
    exact ⟨w, rfl⟩
  · rw [if_neg h, if_neg fun h' => h (heoe.mpr h')]
    refine sameEnd_of_alike (alike_logEvent ?_) ⟨w, rfl⟩
    exact congrArg some hseq

theorem Like.config (h : Like d d') : d'.config = d.config := by
  obtain ⟨w, rfl⟩ := h
  rfl

theorem actAll_cons_ok {r : Received} (h : r.act d = .ok () d') : actAll (r :: rs) d = actAll rs d' := by
  show EStateM.bind r.act (fun _ => actAll rs) d = _
  rw [EStateM.bind, h]

theorem actAll_cons_error {r : Received} {e : StreamFault}
    (h : r.act d = .error e d') : actAll (r :: rs) d = .error e d' := by
  show EStateM.bind r.act (fun _ => actAll rs) d = _
  rw [EStateM.bind, h]

theorem same_cons {r r' : Received} {rs' : List Received} (hend : SameEnd (r.act d) (r'.act d'))
    (hcontrols : r.controls d.config = r'.controls d'.config)
    (hrest : ∀ t t', r.act d = .ok () t → r'.act d' = .ok () t' → Like t t' →
      performed t rs = performed t' rs' ∧ SameEnd (actAll rs t) (actAll rs' t')) :
    performed d (r :: rs) = performed d' (r' :: rs') ∧
      SameEnd (actAll (r :: rs) d) (actAll (r' :: rs') d') := by
  rw [performed_cons, performed_cons, hcontrols]
  rcases hend.elim with ⟨t, t', ht, ht', hlike⟩ | ⟨e, t, t', ht, ht', hlike⟩
  · obtain ⟨hperf, hsame⟩ := hrest t t' ht ht' hlike
    rw [actAll_cons_ok ht, actAll_cons_ok ht', ht, ht']
    exact ⟨congrArg _ hperf, hsame⟩
  · rw [actAll_cons_error ht, actAll_cons_error ht', ht, ht']
    exact ⟨rfl, rfl, hlike⟩

/-- **The texts of messages make no difference**, as long as none of them is a request. -/
theorem same_of_harmless {rs' : List Received} (h : TextsDiffer d rs rs') :
    ∀ d', Like d d' → Harmless d rs → Harmless d' rs' →
      performed d rs = performed d' rs' ∧ SameEnd (actAll rs d) (actAll rs' d') := by
  induction h with
  | nil d => exact fun d' hd _ _ => ⟨rfl, hd⟩
  | own i h ih =>
    intro d' hd hharm hharm'
    refine same_cons (sameEnd_of_alike (blind_handle i) hd) rfl fun t t' ht ht' hlike => ?_
    exact ih t ht t' hlike (hharm.2 t ht) (hharm'.2 t' ht')
  | network hseq hsize h ih =>
    intro d' hd hharm hharm'
    have hrotate := hharm.1 _ rfl
    have hrotate' := hharm'.1 _ rfl
    rw [hd.config] at hrotate'
    refine same_cons (sameEnd_network hd hseq hsize hrotate hrotate') ?_ fun t t' ht ht' hlike => ?_
    · rw [hd.config, Received.controls_network_eq_nil.mpr hrotate,
        Received.controls_network_eq_nil.mpr hrotate']
    · exact ih t ht t' hlike (hharm.2 t ht) (hharm'.2 t' ht')

/-- **Messages from the network do not control the daemon**, and their texts make no difference to the
requests it follows nor to anything else it does, if and only if none of them is of the type of a request
to rotate the logs at a moment when the type is looked at. -/
theorem controlled_iff (d : Daemon) (rs rs' : List Received) (h : TextsDiffer d rs rs') :
    (Undirected d rs ∧ Undirected d rs' ∧ performed d rs = performed d rs' ∧
        SameEnd (actAll rs d) (actAll rs' d)) ↔
      Harmless d rs ∧ Harmless d rs' := by
  rw [undirected_iff, undirected_iff]
  constructor
  · rintro ⟨hharm, hharm', -⟩
    exact ⟨hharm, hharm'⟩
  · rintro ⟨hharm, hharm'⟩
    exact ⟨hharm, hharm', same_of_harmless h d (Like.refl d) hharm hharm'⟩

/-- An event from the network with this text. -/
def networkEvent (text : String) : Event := replaceEventMsg (ascii text) 7

theorem networkEvent_sequenceId (text : String) : (networkEvent text).sequenceId = 7 :=
  sequenceId_replaceEventMsg _ _

/-- A record of a system call. -/
def syscallZero : Event := networkEvent "type=SYSCALL msg=audit(1.000:1): a0=0"

/-- Another one. -/
def syscallOne : Event := networkEvent "type=SYSCALL msg=audit(1.000:1): a0=1"

/-- Two records of system calls. -/
theorem controlled_two_syscalls : Undirected distributingDaemon [.network syscallZero] ∧
      Undirected distributingDaemon [.network syscallOne] ∧
      performed distributingDaemon [.network syscallZero] =
        performed distributingDaemon [.network syscallOne] ∧
      SameEnd (actAll [.network syscallZero] distributingDaemon)
        (actAll [.network syscallOne] distributingDaemon) := by
  have htype : networkType distributingDaemon.config syscallZero.message = 1300 := by
    decide +kernel
  have htype' : networkType distributingDaemon.config syscallOne.message = 1300 := by
    decide +kernel
  have hlength : syscallZero.message.length = syscallOne.message.length := by decide +kernel
  have hseq : syscallZero.sequenceId = syscallOne.sequenceId := by
    rw [syscallZero, syscallOne, networkEvent_sequenceId, networkEvent_sequenceId]
  refine (controlled_iff _ _ _ (.network hseq ?_ fun d' _ => .nil d')).mpr ⟨⟨?_, ?_⟩, ?_, ?_⟩
  · rw [logSize, logSize, htype, htype', hlength]
  · rintro _ ⟨⟩
    rw [htype]
    decide
  · exact fun _ _ => trivial
  · rintro _ ⟨⟩
    rw [htype']
    decide
  · exact fun _ _ => trivial

/-- A client asks for a rotation, and the logs are rotated; a text of the same size that names another
type does nothing of the kind. -/
theorem network_message_rotates : performed distributingDaemon
        [.network (networkEvent "type=DAEMON_ROTATE msg=audit(1.000:1): ")] = [[.rotate]] ∧
      performed distributingDaemon
        [.network (networkEvent "type=DAEMON_RESUME msg=audit(1.000:1): ")] = [[]] ∧
      ¬ Undirected distributingDaemon
        [.network (networkEvent "type=DAEMON_ROTATE msg=audit(1.000:1): ")] := by
  have hrotate : networkType distributingDaemon.config
      (networkEvent "type=DAEMON_ROTATE msg=audit(1.000:1): ").message = auditDaemonRotate := by
    decide +kernel
  have hresume : networkType distributingDaemon.config
      (networkEvent "type=DAEMON_RESUME msg=audit(1.000:1): ").message ≠ auditDaemonRotate := by
    decide +kernel
  refine ⟨?_, ?_, fun hundirected => ?_⟩
  · rw [performed_cons, Received.controls, if_pos hrotate]
    cases Received.act _ distributingDaemon <;> rfl
  · rw [performed_cons, Received.controls, if_neg hresume]
    cases Received.act _ distributingDaemon <;> rfl
  · exact ((undirected_iff _ _).mp hundirected).1 _ rfl hrotate

end LibAudit.Auditd
