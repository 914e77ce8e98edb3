import LibAudit.Lib.Hoare
import LibAudit.Lib.TwoRuns
import LibAudit.Auditd.Log

/-!
# What the daemon does besides writing

Rotation, the checks after a write, the actions on errors and the flush are made of a few steps: variables
are read and set, and functions of the system are called.  `Steps` says so, and one lemma for each function
of `auditd-event.c` shows it.  None of the steps looks at the records written so far, and none of them
touches those, the replies sent or the configuration.

* `Steps.silent`: if such a function ends well, configuration, records and replies are the same as before.
* `Steps.blind`: it does the same in states that differ only in the records written so far.
-/

namespace LibAudit.Auditd

open Spool Hoare

/-! ## Steps -/

/-- Configuration, records written and replies sent are the same. -/
structure Same (d d' : Daemon) : Prop where
  config : d'.config = d.config
  written : d'.written = d.written
  replies : d'.replies = d.replies

theorem Same.trans {d d' d'' : Daemon} (h : Same d d') (h' : Same d' d'') : Same d d'' :=
  ⟨h'.config.trans h.config, h'.written.trans h.written, h'.replies.trans h.replies⟩

/-- Any fault. -/
abbrev Any : StreamFault → Daemon → Prop := fun _ _ => True

/-- If it ends well, configuration, records and replies are the same as before. -/
def Silent {α : Type} (m : LogM α) : Prop := ∀ d, Triple (Same d) m (fun _ => Same d) Any

/-- The records written so far may differ. -/
def Like (d d' : Daemon) : Prop := ∃ w, d' = { d with written := w }

/-- It does the same in states that differ only in the records written so far. -/
abbrev Blind {α : Type} (m : LogM α) : Prop := Alike Like m m

/-- A function that is made of steps. -/
inductive Steps : {α : Type} → LogM α → Prop
  | pure {α : Type} (a : α) : Steps (Pure.pure a : LogM α)
  | throw {α : Type} (e : StreamFault) : Steps (MonadExcept.throw e : LogM α)
  | bind {α β : Type} {m : LogM α} {f : α → LogM β} (hm : Steps m) (hf : ∀ a, Steps (f a)) :
      Steps (m >>= f)
  | read {α : Type} {f : Daemon → LogM α} (hview : ∀ d w, f { d with written := w } = f d)
      (hf : ∀ d, Steps (f d)) : Steps (MonadState.get >>= f)
  | modify {f : Daemon → Daemon} (hsame : ∀ d, Same d (f d))
      (hview : ∀ d w, f { d with written := w } = { f d with written := w }) :
      Steps (modify f : LogM PUnit)
  | outcome {α : Type} (f : Calls → Nat → α) : Steps (outcome f)

namespace Steps

variable {α : Type} {m m' : LogM α}

theorem ite {c : Prop} [Decidable c] (h : Steps m) (h' : Steps m') : Steps (if c then m else m') := by
  split
  · exact h
  · exact h'

theorem whenever {c : Prop} [Decidable c] {m : LogM Unit} (h : Steps m) :
    Steps (LibAudit.Auditd.whenever c m) :=
  .ite h (.pure ())

/-- **Steps are silent.** -/
theorem silent (h : Steps m) : Silent m := by
  induction h with
  | pure a => exact fun _ => .pure a fun _ => id
  | throw e => exact fun _ => .throw e fun _ _ => trivial
  | bind _ _ ihm ihf => exact fun d => (ihm d).bind fun a => ihf a d
  | read _ _ ihf => exact fun d => .read fun d' _ => ihf d' d
  | modify hsame _ => exact fun _ => .modify fun d' hd => hd.trans (hsame d')
  | outcome f => exact fun _ _ h => { h with }

/-- **Steps do not look at the records written.** -/
theorem blind (h : Steps m) : Blind m := by
  induction h with
  | pure a => exact .pure a
  | throw e => exact .throw e
  | bind _ _ ihm ihf => exact ihm.bind ihf
  | read hview _ ihf =>
    refine .read ?_
    rintro d _ ⟨w, rfl⟩
    rw [hview d w]
    exact ihf d
  | modify _ hview =>
    refine .modify ?_
    rintro d _ ⟨w, rfl⟩
    exact ⟨w, hview d w⟩
  | outcome f =>
    rintro d _ ⟨w, rfl⟩
    exact ⟨rfl, w, rfl⟩

end Steps

/-- A silent function keeps every fact about configuration, records and replies. -/
theorem Silent.keeps {α : Type} {m : LogM α} (h : Silent m) {Q : Daemon → Prop}
    (hQ : ∀ d d', Same d d' → Q d → Q d') : Triple Q m (fun _ => Q) Any := by
  intro d hd
  have := h d d ⟨rfl, rfl, rfl⟩
  cases hm : m d with
  | ok a d' =>
    rw [hm] at this
    exact hQ d d' this hd
  | error e d' => trivial

/-! ## Actions and rotation -/

theorem closeLog_eq : closeLog = MonadState.get >>= fun d =>
    if d.logFile then modify fun d => { d with logFile := false } else throw .close := by
  funext d
  simp only [closeLog, bind, EStateM.bind, get, getThe, MonadStateOf.get, get_apply]
  split <;> rfl

theorem steps_closeLog : Steps closeLog :=
  closeLog_eq ▸ .read (fun _ _ => rfl) fun _ =>
    .ite (.modify (fun _ => ⟨rfl, rfl, rfl⟩) fun _ _ => rfl) (.throw _)

theorem steps_suspendLogging : Steps suspendLogging := .modify (fun _ => ⟨rfl, rfl, rfl⟩) fun _ _ => rfl

theorem steps_execAction : Steps execAction :=
  .bind steps_closeLog fun _ => .modify (fun _ => ⟨rfl, rfl, rfl⟩) fun _ _ => rfl

theorem steps_doDiskErrorAction : Steps doDiskErrorAction := by
  refine .read (fun _ _ => rfl) fun d => ?_
  split
  · exact .whenever (.modify (fun _ => ⟨rfl, rfl, rfl⟩) fun _ _ => rfl)
  · exact steps_execAction
  · exact steps_suspendLogging
  · exact .pure ()

theorem steps_doDiskFullActionWith {rotate : LogM Unit} (h : Steps rotate) :
    Steps (doDiskFullActionWith rotate) := by
  refine .read (fun _ _ => rfl) fun d => ?_
  split
  · exact .whenever h
  · exact steps_execAction
  · exact steps_suspendLogging
  · exact .pure ()

theorem steps_openAuditLog : Steps openAuditLog := by
  refine .read (fun _ _ => rfl) fun d => .ite (.pure _) (.bind (.outcome _) ?_)
  rintro (_ | size)
  · exact .pure _
  · exact .bind (.modify (fun _ => ⟨rfl, rfl, rfl⟩) fun _ _ => rfl) fun _ => .pure _

section Rotation

variable {onFull : LogM Unit} (hfull : Steps onFull)

theorem renameError_eq (e : Errno) : renameError onFull e = MonadState.get >>= fun d =>
    if e = .enospc ∧ d.fsSpaceLeft then do
      modify fun d => { d with fsSpaceLeft := false }
      onFull
    else doDiskErrorAction := by
  funext d
  simp only [renameError, bind, EStateM.bind, get, getThe, MonadStateOf.get, get_apply]
  split <;> rfl

include hfull

theorem steps_renameError (e : Errno) : Steps (renameError onFull e) :=
  renameError_eq e ▸ .read (fun _ _ => rfl) fun _ =>
    .ite (.bind (.modify (fun _ => ⟨rfl, rfl, rfl⟩) fun _ _ => rfl) fun _ => hfull) steps_doDiskErrorAction

theorem steps_renameLog (i : Nat) : Steps (renameLog onFull i) := by
  refine .bind (.outcome _) fun rc => ?_
  split
  · refine .modify (fun d => ?_) fun d w => ?_
    · split <;> exact ⟨rfl, rfl, rfl⟩
    · split <;> rfl
  · exact .pure ()
  · exact steps_renameError hfull _

theorem steps_renameLogs (i : Nat) : Steps (renameLogs onFull i) := by
  fun_induction renameLogs onFull i with
  | case1 => exact .pure ()
  | case2 => exact .pure ()
  | case3 i ih => exact .bind (steps_renameLog hfull _) fun _ => ih

theorem steps_renameCurrent : Steps (renameCurrent onFull) := by
  refine .bind (.outcome _) fun rc => ?_
  split
  · exact .pure ()
  · exact .pure ()
  · exact steps_renameError hfull _

omit hfull in
theorem steps_reopenAfterRotate : Steps reopenAfterRotate :=
  .bind steps_openAuditLog fun _ =>
    .whenever (.bind steps_suspendLogging fun _ => steps_doDiskErrorAction)

theorem steps_rotateLogsWith (numLogs : Nat) (keepLogs : Bool) :
    Steps (rotateLogsWith onFull numLogs keepLogs) := by
  refine .read (fun _ _ => rfl) fun d => .ite (.pure ()) (.bind steps_closeLog fun _ => ?_)
  refine .bind (.outcome _) fun _ => .ite steps_suspendLogging ?_
  refine .bind (.outcome _) fun _ => .ite steps_suspendLogging ?_
  refine .bind (.modify (fun _ => ⟨rfl, rfl, rfl⟩) fun _ _ => rfl) fun _ => ?_
  refine .bind (steps_renameLogs hfull _) fun _ => ?_
  exact .bind (steps_renameCurrent hfull) fun _ => steps_reopenAfterRotate

end Rotation

theorem steps_rotateLogs (numLogs : Nat) (keepLogs : Bool) : Steps (rotateLogs numLogs keepLogs) :=
  steps_rotateLogsWith
    (steps_doDiskFullActionWith (steps_rotateLogsWith (.pure ()) 0 false)) numLogs keepLogs

theorem steps_doDiskFullAction : Steps doDiskFullAction :=
  steps_doDiskFullActionWith (steps_rotateLogs 0 false)

/-- The disk is full, for the first time. -/
theorem steps_diskFull : Steps (do
    let d ← get
    whenever (d.fsSpaceLeft = true) do
      modify fun d => { d with fsSpaceLeft := false }
      doDiskFullAction) :=
  .read (fun _ _ => rfl) fun _ =>
    .whenever (.bind (.modify (fun _ => ⟨rfl, rfl, rfl⟩) fun _ _ => rfl) fun _ => steps_doDiskFullAction)

theorem steps_nextLog : Steps nextLog := by
  refine .read (fun _ _ => rfl) fun d => .bind (.outcome _) fun n => ?_
  refine .bind (.modify (fun _ => ⟨rfl, rfl, rfl⟩) fun _ _ => rfl) fun _ => .ite ?_ (.pure _)
  exact .bind (.outcome _) fun _ => .pure _

theorem steps_shiftLogs : Steps shiftLogs := by
  refine .bind (.outcome _) fun _ => .ite (.pure ()) (.bind steps_nextLog fun n => ?_)
  exact .bind (.modify (fun _ => ⟨rfl, rfl, rfl⟩) fun _ _ => rfl) fun _ => steps_rotateLogs _ true

theorem steps_rotateLogsNow : Steps rotateLogsNow :=
  .read (fun _ _ => rfl) fun _ => .ite steps_shiftLogs (steps_rotateLogs 0 false)

/-! ## Checks and flush -/

theorem steps_checkLogFileSize : Steps checkLogFileSize := by
  refine .read (fun _ _ => rfl) fun d => .ite (.pure ()) (.ite ?_ (.pure ()))
  split
  · exact steps_suspendLogging
  · exact .whenever (steps_rotateLogs 0 false)
  · exact steps_shiftLogs
  · exact .pure ()

theorem steps_doSpaceLeftAction (action : FailureAction) : Steps (doSpaceLeftAction action) := by
  refine .read (fun _ _ => rfl) fun d => ?_
  split
  · exact .whenever (steps_rotateLogs 0 false)
  · exact steps_execAction
  · exact steps_suspendLogging
  · exact .pure ()

theorem steps_checkLeft (limit : DaemonConf → Nat) (action : DaemonConf → FailureAction)
    {warning : Daemon → Bool} {setWarning : Bool → Daemon → Daemon}
    (hwarning : ∀ d w, warning { d with written := w } = warning d)
    (hsame : ∀ b d, Same d (setWarning b d))
    (hview : ∀ b d w, setWarning b { d with written := w } = { setWarning b d with written := w })
    (bavail bsize : Nat) : Steps (checkLeft limit action warning setWarning bavail bsize) := by
  refine .read (fun d w => by simp only [whenever, hwarning]) fun d =>
    .ite (.whenever ?_) (.whenever (.modify (hsame false) (hview false)))
  refine .bind (steps_doSpaceLeftAction _) fun _ => .modify (fun d => ?_) fun d w => ?_
  · split
    · exact ⟨rfl, rfl, rfl⟩
    · exact hsame true d
  · split
    · rfl
    · exact hview true d w

theorem steps_checkSpaceLeft : Steps checkSpaceLeft := by
  refine .read (fun _ _ => rfl) fun d => .bind (.outcome _) fun buf => ?_
  split
  · exact .pure ()
  refine .ite ?_ ?_
  · exact .bind (.modify (fun _ => ⟨rfl, rfl, rfl⟩) fun _ _ => rfl) fun _ => steps_doDiskFullAction
  · refine .bind (steps_checkLeft _ _ (fun _ _ => rfl) (fun _ _ => ?_) (fun _ _ _ => rfl) _ _) fun _ =>
      steps_checkLeft _ _ (fun _ _ => rfl) (fun _ _ => ?_) (fun _ _ _ => rfl) _ _
    · exact ⟨rfl, rfl, rfl⟩
    · exact ⟨rfl, rfl, rfl⟩

theorem steps_checkAfterWrite (rc : Nat) : Steps (checkAfterWrite rc) := by
  refine .read (fun _ _ => rfl) fun d => .whenever ?_
  refine .bind (.modify (fun _ => ⟨rfl, rfl, rfl⟩) fun _ _ => rfl) fun _ => ?_
  exact .bind steps_checkLogFileSize fun _ =>
    .read (fun _ _ => rfl) fun _ => .whenever steps_checkSpaceLeft

theorem steps_flushFailed (errno : Errno) : Steps (flushFailed errno) :=
  steps_renameError steps_doDiskFullAction errno

theorem steps_flushStream : Steps flushStream := by
  refine .bind (.modify (fun _ => ⟨rfl, rfl, rfl⟩) fun _ _ => rfl) fun _ => .bind (.outcome _) fun rc => ?_
  split
  · exact .pure ()
  · exact steps_flushFailed _

theorem steps_syncFile : Steps syncFile :=
  .read (fun _ _ => rfl) fun _ => .whenever (.bind (.outcome _) fun _ =>
    .read (fun _ _ => rfl) fun _ => .whenever steps_doDiskErrorAction)

theorem steps_flushLog : Steps flushLog := by
  refine .read (fun _ _ => rfl) fun d => .whenever ?_
  refine .bind (.modify (fun _ => ⟨rfl, rfl, rfl⟩) fun _ _ => rfl) fun _ => .read (fun _ _ => rfl) fun d => ?_
  exact .whenever (.bind steps_flushStream fun _ => steps_syncFile)

/-! ## Signals -/

theorem steps_resumeLogging : Steps resumeLogging := by
  refine .bind (.modify (fun _ => ⟨rfl, rfl, rfl⟩) fun _ _ => rfl) fun _ => .read (fun _ _ => rfl) fun d => ?_
  refine .bind (.whenever (.bind steps_openAuditLog fun _ => ?_)) fun _ =>
    .modify (fun _ => ⟨rfl, rfl, rfl⟩) fun _ _ => rfl
  exact .ite (.bind steps_suspendLogging fun _ => steps_doDiskErrorAction) steps_checkLogFileSize

theorem steps_reopenAfterReconfigure : Steps reopenAfterReconfigure := by
  refine .bind steps_closeLog fun _ => .bind steps_openAuditLog fun _ => .ite ?_ ?_
  · exact .bind steps_suspendLogging fun _ => steps_doDiskErrorAction
  · exact .bind (.modify (fun _ => ⟨rfl, rfl, rfl⟩) fun _ _ => rfl) fun _ => steps_checkLogFileSize

end LibAudit.Auditd
