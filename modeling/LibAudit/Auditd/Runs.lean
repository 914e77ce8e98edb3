import LibAudit.Auditd.Stream

/-!
# Runs of the daemon

`run_keeps_stream_open`: if all its steps are `Calm`, a run never writes, flushes or closes a stream
that is not open, and leaves it open whenever logs are to be written and logging is not suspended.
What `Calm` excludes does go wrong:

* a program run by an action takes the stream away (`FailureAction.exec`), and neither another such
  action nor a flush in the same step looks at the stream again (the flush is of all streams then);
* a rotation that finds the disk full starts a rotation (`FailureAction.rotate`), whose first act is
  to close the stream that the first one has closed;
* after a reopening that failed, a flush or a second rotation in the same step expects a stream, and
  so do a later rotation and a reconfiguration;
* logs that are switched off leave no stream behind, and a rotation or a reconfiguration closes it
  nevertheless.
-/

namespace LibAudit.Auditd

open Tables Hoare

variable {k : Calls}

/-! ## Steps and runs -/

/-- A step of the daemon: what it is asked to do, and how the system calls come out. -/
structure Step where
  input : Input
  calls : Calls

/-- One step. -/
def step (s : Step) : LogM Unit := do
  modify fun d => { d with calls := s.calls, tick := 0 }
  handle s.input

/-- A sequence of steps. -/
def run : List Step → LogM Unit
  | [] => pure ()
  | s :: steps => do
    step s
    run steps

/-- Logs are to be written. -/
def Daemon.Logs (d : Daemon) : Prop := d.config.writeLogs = true ∨ d.config.daemonize = .foreground

/-- Whenever logs are to be written and logging is not suspended the log stream is open. -/
def Daemon.StreamReady (d : Daemon) : Prop :=
  d.Logs → d.loggingSuspended = false → d.logFile = true

/-- What an event must be like, in this state, for the stream to be treated properly. -/
def CalmEvent (k : Calls) (d : Daemon) (e : LogEvent) : Prop :=
  (Off d.config ∧ e.type ≠ auditDaemonRotate) ∨
    (Steady k d.config ∧ Endures k d.config ∧
      (e.type = auditDaemonRotate → d.logFile = true))

/-- The same for a reconfiguration.  It either switches logs off, or keeps them on and meets an open
stream and no error. -/
def CalmReconfigure (k : Calls) (d : Daemon) (n : DaemonConf) : Prop :=
  (d.config.daemonize = .background ∧ n.writeLogs = false ∧ Quiet n ∧
      (d.config.needReopen n → d.logFile = true)) ∨
    (Steady k d.config ∧ Steady k n ∧ Reliable k ∧ d.logFile = true)

/-- A step in which the stream is treated properly. -/
def Calm (d : Daemon) (s : Step) : Prop :=
  match s.input with
  | .event e => CalmEvent s.calls d e
  | .reconfigure n _ => CalmReconfigure s.calls d n
  | .resume => Off d.config ∨ Steady s.calls d.config

/-- A run of such steps. -/
def CalmRun : Daemon → List Step → Prop
  | _, [] => True
  | d, s :: steps => Calm d s ∧ ∀ d', step s d = .ok () d' → CalmRun d' steps

variable {d : Daemon}

/-- The stream is ready, and `flushedNull` is what it was. -/
def Ready (f : Bool) (d : Daemon) : Prop := d.StreamReady ∧ d.flushedNull = f

theorem ready_of_usable {f : Bool} (h : At (· = f) (Steady k) k Usable d) : Ready f d := by
  refine ⟨fun _ hs => h.bits.resolve_right ?_, h.flushed⟩
  rw [hs]
  decide

theorem ready_of_off {f : Bool} (h : At (· = f) Off k Whatever d) : Ready f d := by
  refine ⟨fun hlogs => ?_, h.flushed⟩
  rw [Daemon.Logs, h.config.writeLogs, h.config.daemonize] at hlogs
  exact absurd hlogs (by decide)

theorem usable_of_steady (hready : d.StreamReady) (h : Steady k d.config) :
    Usable d.logFile d.loggingSuspended := by
  cases hs : d.loggingSuspended with
  | false => exact .inl (hready (.inl h.writeLogs) hs)
  | true => exact .inr rfl

theorem event_spec {e : LogEvent} (hready : d.StreamReady) (hcalls : d.calls = k)
    (hcalm : CalmEvent k d e) :
    Triple (· = d) (handle (.event e)) (fun _ => Ready d.flushedNull) Never := by
  refine .ite (fun _ => .pure _ ?_) fun _ => ?_
  · rintro _ rfl
    exact ⟨hready, rfl⟩
  obtain ⟨hoff, hrotate⟩ | ⟨hsteady, hendures, hrotate⟩ := hcalm
  · refine .ite (fun hr => absurd hr hrotate) fun _ =>
      (logEvent_of_off (F := (· = d.flushedNull)) (k := k) e).conseq ?_ (fun _ _ => ready_of_off) fun _ _ => id
    rintro _ rfl
    exact ⟨hoff, hcalls, rfl, trivial⟩
  · refine (handleEvent_spec (F := (· = d.flushedNull)) (C := fun c => Steady k c ∧ Endures k c)
      (p := fun isOpen suspended => Usable isOpen suspended ∧
        (e.type = auditDaemonRotate → isOpen = true))
      (fun _ hc => ⟨hc.1, .inl hc.2⟩) e (fun _ _ h => h.1) fun hr _ _ h => h.2 hr).conseq ?_ ?_
      fun _ _ => id
    · rintro _ rfl
      exact ⟨⟨hsteady, hendures⟩, hcalls, rfl, usable_of_steady hready hsteady, hrotate⟩
    · exact fun _ _ h => ready_of_usable ⟨h.config.1, h.calls, h.flushed, h.bits⟩

theorem reconfigure_step_spec {n : DaemonConf} {message : Bytes}
    (hcalls : d.calls = k) (hcalm : CalmReconfigure k d n) :
    Triple (· = d) (handle (.reconfigure n message)) (fun _ => Ready d.flushedNull) Never := by
  obtain ⟨hd, hoff, hn, hreopen⟩ | ⟨hsteady, hn, hk, hopen⟩ := hcalm
  · refine .bind (reconfigure_of_off (F := (· = d.flushedNull)) hcalls rfl hd hoff hn hreopen) fun _ =>
      .read fun d h => .ite (fun _ => ?_) fun hon => ?_
    · exact .pure _ fun _ => ready_of_off
    · exact absurd ⟨h.config.writeLogs, h.config.daemonize⟩ hon
  · refine .bind ((reconfigure_spec (F := (· = d.flushedNull)) hk hn).pre ?_) fun _ => .read fun d h => ?_
    · rintro _ rfl
      exact ⟨hsteady, hcalls, rfl, hopen⟩
    refine .pre (P := At _ (Steady k) k Usable) ?_ fun _ h => h.imp fun _ _ => .inl
    refine .ite (fun _ => .pure _ fun _ => ready_of_usable) fun _ => ?_
    exact (logEvent_spec (fun _ hc => ⟨hc, .inl (.inl hk)⟩) _).post fun _ _ => ready_of_usable

theorem resume_spec (hcalls : d.calls = k) (hcalm : Off d.config ∨ Steady k d.config) :
    Triple (· = d) (handle .resume) (fun _ => Ready d.flushedNull) Never := by
  rcases hcalm with hoff | hsteady
  · refine (resumeLogging_of_off (F := (· = d.flushedNull)) (k := k)).conseq ?_ (fun _ _ => ready_of_off) fun _ _ => id
    rintro _ rfl
    exact ⟨hoff, hcalls, rfl, trivial⟩
  · refine (resumeLogging_spec (F := (· = d.flushedNull)) (k := k) (p := Whatever) (fun _ => id)).conseq ?_
      (fun _ _ => ready_of_usable) fun _ _ => id
    rintro _ rfl
    exact ⟨hsteady, hcalls, rfl, trivial⟩

theorem step_spec (s : Step) (f : Bool) :
    Triple (fun d => Ready f d ∧ Calm d s) (step s) (fun _ => Ready f) Never := by
  obtain ⟨input, k⟩ := s
  refine .bind (Q := fun _ d => (Ready f d ∧ Calm d ⟨input, k⟩) ∧ d.calls = k)
    (.modify fun d h => ⟨h, rfl⟩) fun _ d h => ?_
  obtain ⟨⟨⟨hready, rfl⟩, hcalm⟩, hcalls⟩ := h
  cases input with
  | event e => exact event_spec hready hcalls hcalm d rfl
  | reconfigure n message => exact reconfigure_step_spec hcalls hcalm d rfl
  | resume => exact resume_spec hcalls hcalm d rfl

/-- **The log stream is open whenever it is needed**: a run of calm steps comes to its end without
writing, flushing or closing a stream that is not open, and leaves the stream open unless logging is
suspended or logs are not written. -/
theorem run_keeps_stream_open (steps : List Step) (d : Daemon) (hopen : d.logFile = true)
    (hcalm : CalmRun d steps) :
    ∃ d', run steps d = .ok () d' ∧ d'.StreamReady ∧ d'.flushedNull = d.flushedNull := by
  have hready : Ready d.flushedNull d := ⟨fun _ _ => hopen, rfl⟩
  clear hopen
  generalize d.flushedNull = f at hready ⊢
  induction steps generalizing d with
  | nil => exact ⟨d, rfl, hready⟩
  | cons s steps ih =>
    obtain ⟨⟨⟩, d', hstep, hready'⟩ := (step_spec s f).total ⟨hready, hcalm.1⟩
    obtain ⟨d'', hrun, hready''⟩ := ih d' (hcalm.2 d' hstep) hready'
    refine ⟨d'', ?_, hready''⟩
    show EStateM.bind (step s) (fun _ => run steps) d = _
    rw [EStateM.bind, hstep]
    exact hrun

/-! ### Logs switched off and on again -/

/-- The logs are switched off. -/
def switchOff : Step := ⟨.reconfigure { defaultConf with writeLogs := false } [], goodCalls⟩

/-- The logs are switched on. -/
def switchOn : Step := ⟨.reconfigure defaultConf [], goodCalls⟩

/-- A record is written, and then the logs are switched off. -/
theorem run_keeps_stream_open_switched_off :
    ∃ d', run [⟨.event ⟨1300, [], none⟩, goodCalls⟩, switchOff] startedDaemon = .ok () d' ∧
      d'.StreamReady ∧ d'.flushedNull = false := by
  refine run_keeps_stream_open _ startedDaemon rfl ⟨?_, ?_⟩
  · have hsteady : Steady goodCalls defaultConf :=
      ⟨rfl, nofun, nofun, nofun, nofun, nofun⟩
    exact .inr ⟨hsteady, .inl ⟨fun _ => rfl, nofun⟩, fun _ => rfl⟩
  · intro d' hd'
    have hd : EStateM.Result.ok () _ = EStateM.Result.ok () d' := hd'
    injection hd with _ hd
    subst hd
    refine ⟨.inl ⟨rfl, rfl, ⟨⟨nofun, nofun⟩, ⟨nofun, nofun⟩, ⟨nofun, nofun⟩⟩, fun _ => rfl⟩, ?_⟩
    exact fun _ _ => trivial

/-- Switching logs off leaves no stream, and switching them on again closes it. -/
theorem switched_on_closes_null : startedDaemon.logFile = true ∧
      ∃ d, run [switchOff, switchOn] startedDaemon = .error .close d := ⟨rfl, _, rfl⟩

end LibAudit.Auditd
