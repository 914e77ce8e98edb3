import LibAudit.Lib.Hoare
import LibAudit.Auditd.Log

/-!
# The log stream is open when it is used

Each function of `auditd-event.c` is described by what it does to two bits, whether the stream is
open and whether logging is suspended, as a triple that allows no fault.  The outcomes of the system
calls do not change during a step, so the assertions (`At`) fix them; they say of the configuration
what the step relies on and constrain the bits.  What they say about flushes of a stream that is not
open is left to `F`: nothing, or that there are none.

While logs are written, `Steady` is what all functions rely on.  A rotation closes the stream and
may fail to open it again, and then logging is suspended; what follows in the same step does not
look at that flag.  So either the log can be opened (`Reliable`), or what follows must leave the
stream alone (`Plain`).
-/

namespace LibAudit.Auditd

open Spool Tables Hoare

/-! ## Assertions -/

/-- The configuration satisfies `C`, the system calls are `k`, the flag `flushedNull` satisfies `F`, and
the stream and the suspension satisfy `p`. -/
structure At (F : Bool → Prop) (C : DaemonConf → Prop) (k : Calls) (p : Bool → Bool → Prop)
    (d : Daemon) : Prop where
  config : C d.config
  calls : d.calls = k
  flushed : F d.flushedNull
  bits : p d.logFile d.loggingSuspended

/-- The stream is open. -/
abbrev Opened : Bool → Bool → Prop := fun isOpen _ => isOpen = true

/-- The stream is closed. -/
abbrev Shut : Bool → Bool → Prop := fun isOpen _ => isOpen = false

/-- The stream is open unless logging is suspended. -/
abbrev Usable : Bool → Bool → Prop := fun isOpen suspended => isOpen = true ∨ suspended = true

/-- Memory does not run out, and the log can always be opened. -/
structure Reliable (k : Calls) : Prop where
  malloc : ∀ t, k.malloc t = true
  openLog : ∀ t, k.openLog t ≠ none

/-- What a rotation leaves behind. -/
abbrev Rotated (k : Calls) : Bool → Bool → Prop :=
  fun isOpen suspended => (Reliable k → isOpen = true) ∧ Usable isOpen suspended

/-- Logging may be suspended at any time. -/
def Suspendable (p : Bool → Bool → Prop) : Prop :=
  ∀ isOpen suspended, p isOpen suspended → p isOpen true

theorem suspendable_opened : Suspendable Opened := fun _ _ => id

theorem suspendable_shut : Suspendable Shut := fun _ _ => id

theorem suspendable_usable : Suspendable Usable := fun _ _ _ => .inr rfl

theorem suspendable_rotated (k : Calls) : Suspendable (Rotated k) := fun _ _ h => ⟨h.1, .inr rfl⟩

theorem rotated_of_opened (k : Calls) (isOpen suspended : Bool) (h : Opened isOpen suspended) :
    Rotated k isOpen suspended := ⟨fun _ => h, .inl h⟩

/-- No fault. -/
abbrev Never : StreamFault → Daemon → Prop := fun _ _ => False

variable {F : Bool → Prop} {C : DaemonConf → Prop} {k : Calls} {p q : Bool → Bool → Prop}

theorem At.imp {d : Daemon} (h : At F C k p d)
    (hpq : ∀ isOpen suspended, p isOpen suspended → q isOpen suspended) : At F C k q d :=
  ⟨h.config, h.calls, h.flushed, hpq _ _ h.bits⟩

/-- From `p` to `q`, without a fault. -/
abbrev Leads (F : Bool → Prop) (C : DaemonConf → Prop) (k : Calls) (p : Bool → Bool → Prop) {α : Type}
    (m : LogM α) (q : Bool → Bool → Prop) : Prop := Triple (At F C k p) m (fun _ => At F C k q) Never

/-! ## Building blocks -/

theorem outcome_spec {α : Type} (f : Calls → Nat → α) :
    Triple (At F C k p) (outcome f) (fun a d => (∃ t, a = f k t) ∧ At F C k p d) Never :=
  fun d h => ⟨⟨d.tick, by rw [← h.calls]⟩, { h with }⟩

/-- A program that asks for the outcome of a call is good if it is for every outcome. -/
theorem outcome_bind_spec {α β : Type} {f : Calls → Nat → α} {g : α → LogM β}
    {R : β → Daemon → Prop} (h : ∀ t, Triple (At F C k p) (g (f k t)) R Never) :
    Triple (At F C k p) (outcome f >>= g) R Never := by
  refine .bind (outcome_spec f) fun a => .of_pure ?_
  rintro ⟨t, rfl⟩
  exact h t

theorem whenever_spec {b : Prop} [Decidable b] {P : Daemon → Prop} {m : LogM Unit}
    {Q : Unit → Daemon → Prop} (h : b → Triple P m Q Never) (hn : ¬ b → ∀ d, P d → Q () d) :
    Triple P (whenever b m) Q Never :=
  .ite h fun hb => .pure _ (hn hb)

theorem skip_spec : Leads F C k Opened (pure ()) (Rotated k) :=
  .pure _ fun _ h => h.imp (rotated_of_opened k)

theorem closeLog_spec : Leads F C k Opened closeLog Shut :=
  .read fun _ h => .ite (fun _ => .set ⟨h.config, h.calls, h.flushed, rfl⟩)
    fun hn => absurd h.bits hn

theorem suspendLogging_spec (h : ∀ isOpen suspended, p isOpen suspended → q isOpen true) :
    Leads F C k p suspendLogging q :=
  .modify fun _ hd => ⟨hd.config, hd.calls, hd.flushed, h _ _ hd.bits⟩

theorem doDiskErrorAction_spec (hC : ∀ c, C c → c.diskErrorAction ≠ .exec) (hp : Suspendable p) :
    Leads F C k p doDiskErrorAction p := by
  refine .read fun d h => ?_
  have hexec := hC _ h.config
  split
  · exact whenever_spec (fun _ => .modify fun _ h => { h with })
      fun _ _ => id
  · contradiction
  · exact suspendLogging_spec hp
  · exact .pure _ fun _ => id

theorem openAuditLog_spec (hC : ∀ c, C c → c.writeLogs = true) : Triple (At F C k p) openAuditLog
      (fun failed d => (failed = true → ¬ Reliable k ∧ At F C k p d) ∧
        (failed = false → At F C k Opened d)) Never := by
  refine .read fun d h => .ite (fun hoff => ?_) fun _ => outcome_bind_spec fun t => ?_
  · rw [hC _ h.config] at hoff
    contradiction
  · split
    · rename_i hfail
      exact .pure _ fun _ h => ⟨fun _ => ⟨fun hk => hk.openLog t hfail, h⟩, nofun⟩
    · refine .bind (.modify fun d h => ?_) fun _ =>
        .pure (P := At F C k Opened) _ fun _ h => ⟨nofun, fun _ => h⟩
      exact ⟨h.config, h.calls, h.flushed, rfl⟩

/-! ## Rotation -/

/-- What the actions rely on while logs are written: no action takes the stream away by running a
program, and no rotation is started, because the disk is full, from within another one. -/
structure Steady (k : Calls) (c : DaemonConf) : Prop where
  writeLogs : c.writeLogs = true
  spaceLeft : c.spaceLeftAction ≠ .exec
  adminSpaceLeft : c.adminSpaceLeftAction ≠ .exec
  diskFull : c.diskFullAction ≠ .exec
  diskError : c.diskErrorAction ≠ .exec
  rename : c.diskFullAction = .rotate → ∀ t, k.rename t ≠ some .enospc

theorem doDiskFullActionWith_keeps {rotate : LogM Unit}
    (hC : ∀ c, C c → c.diskFullAction ≠ .exec ∧ c.diskFullAction ≠ .rotate) (hp : Suspendable p) :
    Leads F C k p (doDiskFullActionWith rotate) p := by
  refine .read fun d h => ?_
  obtain ⟨hexec, hrotate⟩ := hC _ h.config
  split
  · contradiction
  · contradiction
  · exact suspendLogging_spec hp
  · exact .pure _ fun _ => id

section Rotation

variable (hC : ∀ c, C c → Steady k c)

include hC

/-- The stream is closed during a rotation, so `onFull`, which is only called if a file cannot be
renamed for want of space, has to do without. -/
theorem renameError_spec {onFull : LogM Unit} {e : Errno}
    (hfull : e = .enospc → Leads F C k Shut onFull Shut) :
    Leads F C k Shut (renameError onFull e) Shut := by
  refine .read fun d h => .ite (fun he => ?_) fun _ => ?_
  · exact .bind (.set { h with }) fun _ => hfull he.1
  · exact doDiskErrorAction_spec (fun c hc => (hC c hc).diskError) suspendable_shut

variable {onFull : LogM Unit} (hfull : ∀ t, k.rename t = some .enospc →
  Leads F C k Shut onFull Shut)

include hfull

theorem renameLog_spec (i : Nat) : Leads F C k Shut (renameLog onFull i) Shut := by
  refine outcome_bind_spec fun t => ?_
  have := hfull t
  split
  · refine .modify fun d h => ?_
    split
    · exact { h with }
    · exact h
  · exact .pure _ fun _ => id
  · rename_i e _ he
    refine renameError_spec hC fun hspace => this ?_
    rw [he, hspace]

theorem renameLogs_spec (i : Nat) : Leads F C k Shut (renameLogs onFull i) Shut := by
  fun_induction renameLogs onFull i with
  | case1 => exact .pure _ fun _ => id
  | case2 => exact .pure _ fun _ => id
  | case3 i ih => exact .bind (renameLog_spec hC hfull _) fun _ => ih

theorem renameCurrent_spec : Leads F C k Shut (renameCurrent onFull) Shut := by
  refine outcome_bind_spec fun t => ?_
  have := hfull t
  split
  · exact .pure _ fun _ => id
  · exact .pure _ fun _ => id
  · rename_i e _ he
    refine renameError_spec hC fun hspace => this ?_
    rw [he, hspace]

omit hfull in
theorem openOrSuspend_spec {m : LogM Unit} (hm : Leads F C k Opened m (Rotated k)) : Leads F C k p (do
        let failed ← openAuditLog
        if failed = true then do
          suspendLogging
          doDiskErrorAction
        else m) (Rotated k) := by
  refine .bind (openAuditLog_spec fun c hc => (hC c hc).writeLogs) fun failed =>
    .ite (fun hf => ?_) fun hf => hm.pre fun d h => h.2 (Bool.eq_false_of_not_eq_true hf)
  refine .pre (P := fun d => ¬ Reliable k ∧ At F C k p d) (.of_pure fun hk => ?_)
    fun d h => h.1 hf
  refine .bind (suspendLogging_spec (q := Rotated k) fun _ _ _ => ?_) fun _ => ?_
  · exact ⟨fun h => absurd h hk, .inr rfl⟩
  · exact doDiskErrorAction_spec (fun c hc => (hC c hc).diskError) (suspendable_rotated k)

theorem rotateLogsWith_spec (numLogs : Nat) (keepLogs : Bool) :
    Leads F C k Opened (rotateLogsWith onFull numLogs keepLogs) (Rotated k) := by
  have hsuspend (t : Nat) (ht : k.malloc t = false) : Leads F C k Shut suspendLogging (Rotated k) := by
    refine suspendLogging_spec fun _ _ _ => ⟨fun hk => ?_, .inr rfl⟩
    rw [hk.malloc] at ht
    contradiction
  refine .read fun d _ => .ite (fun _ => ?_) fun _ => ?_
  · exact skip_spec
  refine .bind closeLog_spec fun _ => outcome_bind_spec fun t =>
    .ite (hsuspend t) fun _ => outcome_bind_spec fun t => .ite (hsuspend t) fun _ => ?_
  refine .update (fun _ h => { h with }) fun _ => ?_
  refine .bind (renameLogs_spec hC hfull _) fun _ => ?_
  exact .bind (renameCurrent_spec hC hfull) fun _ => openOrSuspend_spec hC
    skip_spec

omit hfull

theorem rotateLogs_spec (numLogs : Nat) (keepLogs : Bool) :
    Leads F C k Opened (rotateLogs numLogs keepLogs) (Rotated k) := by
  refine rotateLogsWith_spec hC (fun t ht => ?_) numLogs keepLogs
  refine doDiskFullActionWith_keeps (fun c hc => ⟨(hC c hc).diskFull, fun hrotate => ?_⟩)
    suspendable_shut
  exact (hC c hc).rename hrotate t ht

theorem doDiskFullAction_spec : Leads F C k Opened doDiskFullAction (Rotated k) := by
  refine .read fun d h => ?_
  have hexec := (hC _ h.config).diskFull
  split
  · exact whenever_spec (fun _ => rotateLogs_spec hC 0 false) fun _ _ h => h.imp (rotated_of_opened k)
  · contradiction
  · exact suspendLogging_spec fun _ _ h => ⟨fun _ => h, .inl h⟩
  · exact skip_spec

theorem shiftLogs_spec : Leads F C k Opened shiftLogs (Rotated k) := by
  have hnext : Leads F C k Opened nextLog Opened := by
    refine .read fun d _ => outcome_bind_spec fun t =>
      .update (fun _ h => { h with }) fun _ => .ite (fun _ => ?_) fun _ => ?_
    · exact outcome_bind_spec fun _ => .pure _ fun _ => id
    · exact .pure _ fun _ => id
  refine outcome_bind_spec fun t => .ite (fun _ => ?_) fun _ => .bind hnext fun n => ?_
  · exact skip_spec
  · exact .bind (.modify fun _ h => { h with }) fun _ =>
      rotateLogs_spec hC _ true

theorem rotateLogsNow_spec : Leads F C k Opened rotateLogsNow (Rotated k) :=
  .read fun _ _ => .ite (fun _ => shiftLogs_spec hC) fun _ => rotateLogs_spec hC 0 false

theorem checkLogFileSize_spec : Leads F C k Opened checkLogFileSize (Rotated k) := by
  refine .read fun d _ => .ite (fun _ => skip_spec) fun _ => .ite (fun _ => ?_) fun _ => skip_spec
  split
  · exact suspendLogging_spec fun _ _ h => ⟨fun _ => h, .inl h⟩
  · exact whenever_spec (fun _ => rotateLogs_spec hC 0 false) fun _ _ h => h.imp (rotated_of_opened k)
  · exact shiftLogs_spec hC
  · exact skip_spec

end Rotation

/-! ## After a write -/

/-- After a write, no action is taken that closes the stream. -/
structure Unrotated (c : DaemonConf) : Prop where
  spaceLeft : c.spaceLeftAction ≠ .rotate
  adminSpaceLeft : c.adminSpaceLeftAction ≠ .rotate
  diskFull : c.diskFullAction ≠ .rotate

/-- And no flush needs it either. -/
structure Plain (c : DaemonConf) : Prop extends Unrotated c where
  flush : c.flush ≠ .incremental ∧ c.flush ≠ .incrementalAsync

/-- The actions on a partition that fills up keep `p`. -/
structure Acts (F : Bool → Prop) (C : DaemonConf → Prop) (k : Calls) (p : Bool → Bool → Prop) : Prop where
  full : Leads F C k p doDiskFullAction p
  spaceLeft : ∀ c, C c →
    Leads F C k p (doSpaceLeftAction c.spaceLeftAction) p
  adminSpaceLeft : ∀ c, C c →
    Leads F C k p (doSpaceLeftAction c.adminSpaceLeftAction) p

theorem doSpaceLeftAction_spec (hC : ∀ c, C c → Steady k c) {action : FailureAction}
    (hexec : action ≠ .exec) :
    Leads F C k Opened (doSpaceLeftAction action) (Rotated k) := by
  refine .read fun d _ => ?_
  split
  · exact whenever_spec (fun _ => rotateLogs_spec hC 0 false) fun _ _ h => h.imp (rotated_of_opened k)
  · contradiction
  · exact suspendLogging_spec fun _ _ h => ⟨fun _ => h, .inl h⟩
  · exact skip_spec

theorem doSpaceLeftAction_keeps {action : FailureAction} (hexec : action ≠ .exec)
    (hrotate : action ≠ .rotate) (hp : Suspendable p) :
    Leads F C k p (doSpaceLeftAction action) p := by
  refine .read fun d _ => ?_
  split
  · contradiction
  · contradiction
  · exact suspendLogging_spec hp
  · exact .pure _ fun _ => id

/-- Where nothing goes wrong, a rotation leaves the stream open. -/
theorem acts_opened (hC : ∀ c, C c → Steady k c) (hk : Reliable k) : Acts F C k Opened where
  full := (doDiskFullAction_spec hC).post fun _ _ h => h.imp fun _ _ h => h.1 hk
  spaceLeft c hc :=
    (doSpaceLeftAction_spec hC (hC c hc).spaceLeft).post fun _ _ h => h.imp fun _ _ h => h.1 hk
  adminSpaceLeft c hc :=
    (doSpaceLeftAction_spec hC (hC c hc).adminSpaceLeft).post fun _ _ h => h.imp fun _ _ h => h.1 hk

/-- Where nothing is rotated, the stream is left alone. -/
theorem acts_of_unrotated (hC : ∀ c, C c → Steady k c) (hun : ∀ c, C c → Unrotated c)
    (hp : Suspendable p) : Acts F C k p where
  full := doDiskFullActionWith_keeps (fun c hc => ⟨(hC c hc).diskFull, (hun c hc).diskFull⟩) hp
  spaceLeft c hc := doSpaceLeftAction_keeps (hC c hc).spaceLeft (hun c hc).spaceLeft hp
  adminSpaceLeft c hc :=
    doSpaceLeftAction_keeps (hC c hc).adminSpaceLeft (hun c hc).adminSpaceLeft hp

theorem checkLeft_spec {limit : DaemonConf → Nat} {action : DaemonConf → FailureAction}
    {warning : Daemon → Bool} {setWarning : Bool → Daemon → Daemon}
    (haction : ∀ c, C c →
      Leads F C k p (doSpaceLeftAction (action c)) p)
    (hset : ∀ b d, At F C k p d → At F C k p (setWarning b d)) (bavail bsize : Nat) :
    Leads F C k p (checkLeft limit action warning setWarning bavail bsize) p := by
  refine .read fun d h => .ite (fun _ => whenever_spec (fun _ => ?_) fun _ _ => id)
    fun _ => whenever_spec (fun _ => .modify (hset false)) fun _ _ => id
  refine .bind (haction _ h.config) fun _ => .modify fun d h => ?_
  split
  · exact h
  · exact hset true d h

theorem checkSpaceLeft_spec (hacts : Acts F C k p) : Leads F C k p checkSpaceLeft p := by
  refine .read fun d _ => outcome_bind_spec fun t => ?_
  split
  · exact .pure _ fun _ => id
  refine .ite (fun _ => ?_) fun _ => ?_
  · exact .bind (.modify fun _ h => { h with }) fun _ => hacts.full
  · refine .bind (checkLeft_spec hacts.spaceLeft ?_ _ _) fun _ =>
      checkLeft_spec hacts.adminSpaceLeft ?_ _ _
    · exact fun _ _ h => { h with }
    · exact fun _ _ h => { h with }

/-! ## Events -/

theorem sendAck_spec (e : LogEvent) (type : Nat) (msg : String) :
    Leads F C k p (sendAck e type msg) p := by
  unfold sendAck
  split
  · exact .pure _ fun _ => id
  · exact .modify fun _ h => { h with }

section Event

variable (hC : ∀ c, C c → Steady k c) (hp : Suspendable p) (hacts : Acts F C k p)

include hC hp hacts

theorem writeFailed_spec (e : LogEvent) (errno : Errno) : Leads F C k p (writeFailed e errno) p := by
  refine .ite (fun _ => ?_) fun _ => ?_
  · refine .bind (sendAck_spec e _ _) fun _ => .read fun _ _ =>
      whenever_spec (fun _ => ?_) fun _ _ => id
    exact .bind (.modify fun _ h => { h with }) fun _ => hacts.full
  · exact .bind (sendAck_spec e _ _) fun _ =>
      doDiskErrorAction_spec (fun c hc => (hC c hc).diskError) hp

theorem flushFailed_spec (errno : Errno) : Leads F C k p (flushFailed errno) p :=
  .read fun _ h => .ite
    (fun _ => .bind (.set { h with }) fun _ => hacts.full)
    fun _ => doDiskErrorAction_spec (fun c hc => (hC c hc).diskError) hp

variable (hrotated : ∀ isOpen suspended, Rotated k isOpen suspended → p isOpen suspended)

include hrotated

omit hp in
/-- The size is checked first, with an open stream; what comes next has to live with what that
leaves. -/
theorem checkAfterWrite_spec (rc : Nat) : Leads F C k Opened (checkAfterWrite rc) p := by
  refine .read fun _ _ => whenever_spec (fun _ => ?_) fun _ _ h =>
    h.imp fun _ _ h => hrotated _ _ (rotated_of_opened k _ _ h)
  refine .update (fun _ h => { h with }) fun _ => ?_
  refine .bind ((checkLogFileSize_spec hC).post fun _ _ h => h.imp hrotated) fun _ => ?_
  exact .read fun _ _ => whenever_spec (fun _ => checkSpaceLeft_spec hacts) fun _ _ => id

omit hp in
theorem writeSucceeded_spec (e : LogEvent) (rc : Nat) : Leads F C k Opened (writeSucceeded e rc) p := by
  refine .update (fun _ h => { h with }) fun _ => ?_
  refine .bind (checkAfterWrite_spec hC hacts hrotated rc) fun _ => .read fun _ _ => ?_
  exact .bind (sendAck_spec e _ _) fun _ => .modify fun _ h => { h with }

theorem writeToLog_spec (e : LogEvent) : Leads F C k Opened (writeToLog e) p := by
  refine .read fun d h => .ite (fun hclosed => ?_) fun _ => outcome_bind_spec fun t => ?_
  · have hopen : d.logFile = true := h.bits
    rw [hopen] at hclosed
    contradiction
  · split
    · exact (writeFailed_spec hC hp hacts e _).pre fun _ h =>
        h.imp fun _ _ h => hrotated _ _ (rotated_of_opened k _ _ h)
    · exact writeSucceeded_spec hC hacts hrotated e _

end Event

/-- A flush is fine if the stream is open, or if it does not matter. -/
theorem flushStream_spec (hC : ∀ c, C c → Steady k c) (hp : Suspendable p) (hacts : Acts F C k p)
    (hF : ∀ isOpen suspended b, p isOpen suspended → F b → F (b || !isOpen)) :
    Leads F C k p flushStream p := by
  refine .update (fun _ h => ⟨h.config, h.calls, hF _ _ _ h.bits h.flushed, h.bits⟩) fun _ =>
    outcome_bind_spec fun t => ?_
  split
  · exact .pure _ fun _ => id
  · exact flushFailed_spec hC hp hacts _

theorem syncFile_spec (hC : ∀ c, C c → Steady k c) (hp : Suspendable p) : Leads F C k p syncFile p := by
  refine .read fun _ _ => whenever_spec (fun _ => outcome_bind_spec fun t => ?_) fun _ _ => id
  exact .read fun _ _ => whenever_spec
    (fun _ => doDiskErrorAction_spec (fun c hc => (hC c hc).diskError) hp) fun _ _ => id

theorem flushLog_spec (hC : ∀ c, C c → Steady k c) (hp : Suspendable p) (hacts : Acts F C k p)
    (hF : ∀ isOpen suspended b, p isOpen suspended → F b → F (b || !isOpen)) :
    Leads F C k p flushLog p := by
  refine .read fun _ _ => whenever_spec (fun _ => ?_) fun _ _ => id
  refine .update (fun _ h => { h with }) fun _ => ?_
  refine .read fun _ _ => whenever_spec (fun _ => ?_) fun _ _ => id
  exact .bind (flushStream_spec hC hp hacts hF) fun _ => syncFile_spec hC hp

theorem flushLog_of_plain (hplain : ∀ c, C c → Plain c) : Leads F C k p flushLog p := by
  refine .read fun _ h => whenever_spec (fun hflush => ?_) fun _ _ => id
  obtain ⟨hinc, hasync⟩ := (hplain _ h.config).flush
  exact (hflush.elim hinc hasync).elim

/-- Either nothing goes wrong when the stream is reopened, or nothing after a write needs it. -/
def Endures (k : Calls) (c : DaemonConf) : Prop := Reliable k ∨ Plain c

/-- The same, where it may not matter whether a flush needs the stream. -/
def Survives (F : Bool → Prop) (k : Calls) (c : DaemonConf) : Prop :=
  Endures k c ∨ Unrotated c ∧ ∀ b, F b

theorem writeAndFlush_spec (hC : ∀ c, C c → Steady k c ∧ Survives F k c) (e : LogEvent) :
    Leads F C k Opened (do writeToLog e; flushLog) Usable := by
  have hsteady : ∀ c, C c → Steady k c := fun c hc => (hC c hc).1
  by_cases hk : Reliable k
  · have hacts := acts_opened (F := F) hsteady hk
    refine .bind (writeToLog_spec hsteady suspendable_opened hacts (fun _ _ h => h.1 hk) e)
      fun _ => ?_
    refine (flushLog_spec hsteady suspendable_opened hacts ?_).post fun _ _ h => h.imp fun _ _ => .inl
    rintro _ _ b rfl hb
    rwa [Bool.not_true, Bool.or_false]
  have hrest : ∀ c, C c → Plain c ∨ Unrotated c ∧ ∀ b, F b := fun c hc =>
    (hC c hc).2.imp_left fun h => h.resolve_left hk
  have hacts : Acts F C k Usable := acts_of_unrotated hsteady
    (fun c hc => (hrest c hc).elim Plain.toUnrotated And.left) suspendable_usable
  refine .bind (writeToLog_spec hsteady suspendable_usable hacts (fun _ _ h => h.2) e) fun _ => ?_
  by_cases hF : ∀ b, F b
  · exact flushLog_spec hsteady suspendable_usable hacts fun _ _ _ _ _ => hF _
  · exact flushLog_of_plain fun c hc => (hrest c hc).resolve_right fun h => hF h.2

theorem logEvent_spec (hC : ∀ c, C c → Steady k c ∧ Survives F k c) (e : LogEvent) :
    Leads F C k Usable (logEvent e) Usable := by
  refine .get_bind fun d h => ?_
  refine .ite (fun hwrite => ?_) fun _ => .pre (P := At F C k Usable) ?_ (by rintro _ rfl; exact h)
  · refine (writeAndFlush_spec hC e).pre ?_
    rintro _ rfl
    refine ⟨h.config, h.calls, h.flushed, h.bits.resolve_right fun hs => ?_⟩
    rw [hs] at hwrite
    cases hwrite.1
  · refine .ite (fun _ => sendAck_spec e _ _) fun _ => ?_
    exact whenever_spec (fun _ => sendAck_spec e _ _) fun _ _ => id

theorem handleEvent_spec (hC : ∀ c, C c → Steady k c ∧ Survives F k c) (e : LogEvent)
    (hp : ∀ isOpen suspended, p isOpen suspended → Usable isOpen suspended)
    (hrotate : e.type = auditDaemonRotate → ∀ isOpen suspended, p isOpen suspended →
      Opened isOpen suspended) :
    Leads F C k p (handleEvent e) Usable := by
  refine .ite (fun hr => ?_) fun _ => (logEvent_spec hC e).pre fun _ h => h.imp hp
  refine .bind ((rotateLogsNow_spec fun c hc => (hC c hc).1).conseq
    (fun _ h => h.imp (hrotate hr)) (fun _ _ h => h.imp fun _ _ h => h.2) fun _ _ => id) fun _ => ?_
  exact .read fun _ _ => .ite (fun _ => .pure _ fun _ => id)
    fun _ => logEvent_spec hC e

/-! ## Signals -/

theorem resumeLogging_spec (hC : ∀ c, C c → Steady k c) : Leads F C k p resumeLogging Usable := by
  refine .bind (Q := fun _ => At F C k fun _ _ => True)
    (.modify fun _ h => ⟨h.config, h.calls, h.flushed, trivial⟩) fun _ => .get_bind fun d h => ?_
  refine .bind (Q := fun _ => At F C k Usable) ?_ fun _ => .modify fun _ h => { h with }
  refine whenever_spec (fun _ => ?_) fun hopen => ?_
  · refine .pre (P := At F C k fun _ _ => True) ?_ (by rintro _ rfl; exact h)
    exact (openOrSuspend_spec hC (checkLogFileSize_spec hC)).post
      fun _ _ h => h.imp fun _ _ h => h.2
  · rintro _ rfl
    exact ⟨h.config, h.calls, h.flushed, .inl (Bool.eq_true_of_not_eq_false hopen)⟩

theorem Steady.updateGeneral {o n : DaemonConf} (ho : Steady k o) (hn : Steady k n) :
    Steady k (o.updateGeneral n) where
  __ := ho
  writeLogs := by
    show (if o.daemonize = .background then n.writeLogs else o.writeLogs) = true
    rw [ho.writeLogs, hn.writeLogs, ite_self]
  diskError := hn.diskError

theorem Steady.updateFile {o n : DaemonConf} (ho : Steady k o) : Steady k (o.updateFile n) := { ho with }

theorem Steady.updateSpace {o n : DaemonConf} (ho : Steady k o) (hn : Steady k n) :
    Steady k (o.updateSpace n) :=
  { hn with writeLogs := ho.writeLogs, diskError := ho.diskError }

/-- The percentages only change the limits. -/
theorem setupPercentages_spec (hC : ∀ (c : DaemonConf) (user admin : Nat), C c →
      C { c with spaceLeft := user, adminSpaceLeft := admin }) :
    Leads F C k p setupPercentages p := by
  refine outcome_bind_spec fun _ => outcome_bind_spec fun _ => .modify fun d h => ?_
  split
  · exact ⟨hC _ _ _ h.config, h.calls, h.flushed, h.bits⟩
  · exact h

theorem recheckSpace_spec (hC : ∀ (c : DaemonConf) (user admin : Nat), C c →
      C { c with spaceLeft := user, adminSpaceLeft := admin })
    (hp : ∀ isOpen s s', p isOpen s → p isOpen s') (hacts : Acts F C k p) :
    Leads F C k p recheckSpace p := by
  refine .read fun d _ => .bind (setupPercentages_spec hC) fun _ => ?_
  refine .update (fun _ h => ⟨h.config, h.calls, h.flushed, hp _ _ _ h.bits⟩) fun _ => ?_
  refine .bind (checkSpaceLeft_spec hacts) fun _ => .modify fun d' h => ?_
  split
  · exact h
  · exact ⟨h.config, h.calls, h.flushed, hp _ _ _ h.bits⟩

/-- Without errors, the stream is closed and opened again, and the checks find it open. -/
theorem reconfigure_spec (hk : Reliable k) {n : DaemonConf} (hn : Steady k n) :
    Leads F (Steady k) k Opened (reconfigure n) Opened := by
  have hid : ∀ c, Steady k c → Steady k c := fun _ => id
  have hsize : Leads F (Steady k) k Opened
      (do modify fun d => { d with loggingSuspended := false }
          checkLogFileSize)
      (Rotated k) :=
    .update (fun _ h => { h with }) fun _ => checkLogFileSize_spec hid
  have hreopen : Leads F (Steady k) k Opened reopenAfterReconfigure (Rotated k) :=
    .bind closeLog_spec fun _ => openOrSuspend_spec hid hsize
  have hopen : ∀ (a : Unit) d, At F (Steady k) k (Rotated k) d → At F (Steady k) k Opened d :=
    fun _ _ h => h.imp fun _ _ h => h.1 hk
  refine .read fun o _ => .update (fun _ h => ⟨h.config.updateGeneral hn, h.calls, h.flushed, h.bits⟩) fun _ => ?_
  refine .bind (whenever_spec (fun _ => hsize.post hopen) fun _ _ => id) fun _ => ?_
  refine .update (fun _ h => ⟨h.config.updateFile, h.calls, h.flushed, h.bits⟩) fun _ => ?_
  refine .bind (whenever_spec (fun _ => hreopen.post hopen) fun _ _ => id) fun _ => ?_
  refine .update (fun _ h => ⟨h.config.updateSpace hn, h.calls, h.flushed, h.bits⟩) fun _ => ?_
  refine whenever_spec (fun _ => recheckSpace_spec ?_ (fun _ _ _ => id) (acts_opened hid hk))
    fun _ _ => id
  exact fun c _ _ h => { h with }

/-! ## Logs that are switched off -/

/-- Logs are not written. -/
structure Off (c : DaemonConf) : Prop where
  writeLogs : c.writeLogs = false
  daemonize : c.daemonize = .background

/-- Nothing that is done about a partition that fills up touches the stream. -/
structure Quiet (c : DaemonConf) : Prop where
  spaceLeft : c.spaceLeftAction ≠ .exec ∧ c.spaceLeftAction ≠ .rotate
  adminSpaceLeft : c.adminSpaceLeftAction ≠ .exec ∧ c.adminSpaceLeftAction ≠ .rotate
  diskFull : c.diskFullAction ≠ .exec ∧ c.diskFullAction ≠ .rotate

/-- Any state of the stream. -/
abbrev Whatever : Bool → Bool → Prop := fun _ _ => True

theorem checkLogFileSize_of_off (hC : ∀ c, C c → Off c) : Leads F C k p checkLogFileSize p :=
  .read fun _ h => .ite (fun _ => .pure _ fun _ => id)
    fun hon => absurd (hC _ h.config).writeLogs hon

theorem openAuditLog_of_off (hC : ∀ c, C c → Off c) :
    Triple (At F C k p) openAuditLog (fun failed d => failed = false ∧ At F C k p d) Never :=
  .read fun _ h => .ite (fun _ => .pure _ fun _ h => ⟨rfl, h⟩)
    fun hon => absurd (hC _ h.config).writeLogs hon

theorem logEvent_of_off (e : LogEvent) : Leads F Off k p (logEvent e) p := by
  refine .read fun d h => .ite (fun hwrite => ?_) fun _ =>
    .ite (fun _ => sendAck_spec e _ _) fun _ =>
      whenever_spec (fun _ => sendAck_spec e _ _) fun _ _ => id
  rw [h.config.writeLogs, h.config.daemonize] at hwrite
  exact absurd hwrite.2 (by decide)

theorem resumeLogging_of_off : Leads F Off k Whatever resumeLogging Whatever := by
  refine .update (fun _ h => ⟨h.config, h.calls, h.flushed, trivial⟩) fun _ => .read fun d h => ?_
  refine .bind (Q := fun _ => At F Off k Whatever) ?_ fun _ => .modify fun _ h => { h with }
  refine whenever_spec (fun _ => ?_) fun _ _ => id
  refine .bind (openAuditLog_of_off fun _ => id) fun failed => .of_pure ?_
  rintro rfl
  exact checkLogFileSize_of_off fun _ => id

theorem reopenAfterReconfigure_of_off : Leads F Off k Opened reopenAfterReconfigure Whatever := by
  refine .bind closeLog_spec fun _ => ?_
  refine .bind (openAuditLog_of_off fun _ => id) fun failed => .of_pure ?_
  rintro rfl
  refine .bind (Q := fun _ => At F Off k Whatever)
    (.modify fun _ h => ⟨h.config, h.calls, h.flushed, trivial⟩) fun _ => ?_
  exact checkLogFileSize_of_off fun _ => id

theorem acts_of_quiet : Acts F (fun c => Off c ∧ Quiet c) k Whatever where
  full := doDiskFullActionWith_keeps (fun _ hc => hc.2.diskFull) fun _ _ => id
  spaceLeft _ hc := doSpaceLeftAction_keeps hc.2.spaceLeft.1 hc.2.spaceLeft.2 fun _ _ => id
  adminSpaceLeft _ hc :=
    doSpaceLeftAction_keeps hc.2.adminSpaceLeft.1 hc.2.adminSpaceLeft.2 fun _ _ => id

/-- A reconfiguration after which no logs are written.  It closes the stream if it reopens the log,
so the stream has to be open then. -/
theorem reconfigure_of_off {d : Daemon} {n : DaemonConf} (hcalls : d.calls = k) (hF : F d.flushedNull)
    (hd : d.config.daemonize = .background) (hoff : n.writeLogs = false) (hn : Quiet n)
    (hreopen : d.config.needReopen n → d.logFile = true) :
    Triple (· = d) (reconfigure n) (fun _ => At F Off k Whatever) Never := by
  refine .get_bind fun o ho => ?_
  subst ho
  refine .bind (Q := fun _ => At F Off k fun isOpen _ => isOpen = o.logFile) (.modify ?_) fun _ => ?_
  · rintro _ rfl
    refine ⟨⟨?_, hd⟩, hcalls, hF, rfl⟩
    show (if _ = Daemonize.background then n.writeLogs else _) = false
    rw [if_pos hd, hoff]
  refine .bind (Q := fun _ => At F Off k fun isOpen _ => isOpen = o.logFile)
    (whenever_spec (fun _ => ?_) fun _ _ => id) fun _ => ?_
  · exact .bind (.modify fun _ h => { h with }) fun _ =>
      checkLogFileSize_of_off fun _ => id
  refine .update (fun _ h => ⟨⟨h.config.writeLogs, h.config.daemonize⟩, h.calls, h.flushed, h.bits⟩) fun _ => ?_
  refine .bind (Q := fun _ => At F Off k Whatever)
    (whenever_spec (fun hneed => ?_) fun _ _ h => h.imp fun _ _ _ => trivial) fun _ => ?_
  · exact reopenAfterReconfigure_of_off.pre fun _ h => h.imp fun _ _ h => h.trans (hreopen hneed)
  refine .bind (Q := fun _ => At F (fun c => Off c ∧ Quiet c) k Whatever)
    (.modify fun _ h => ?_) fun _ => ?_
  · exact ⟨⟨⟨h.config.writeLogs, h.config.daemonize⟩,
      ⟨hn.spaceLeft, hn.adminSpaceLeft, hn.diskFull⟩⟩, h.calls, h.flushed, trivial⟩
  have hdrop : ∀ d, At F (fun c => Off c ∧ Quiet c) k Whatever d → At F Off k Whatever d :=
    fun _ h => ⟨h.config.1, h.calls, h.flushed, h.bits⟩
  refine whenever_spec (fun _ => ?_) fun _ => hdrop
  refine (recheckSpace_spec ?_ (fun _ _ _ => id) acts_of_quiet).post fun _ => hdrop
  rintro c _ _ ⟨h, h'⟩
  exact ⟨⟨h.writeLogs, h.daemonize⟩, ⟨h'.spaceLeft, h'.adminSpaceLeft, h'.diskFull⟩⟩

end LibAudit.Auditd
