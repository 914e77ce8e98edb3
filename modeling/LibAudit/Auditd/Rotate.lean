import LibAudit.Auditd.Log
import LibAudit.Lib.Hoare
import Mathlib.Logic.Function.Basic

/-!
# What a rotation does to the logs

`audit.log` is log 0 and `audit.log.i` is log `i`.  A rotation renames the logs from the oldest to the
newest, each to the next number, and opens a new log 0.  If it keeps all logs it first looks for a
number that is not taken, and goes on from there.

`LogDir` adds to the daemon the files there are, each with where its contents come from.  What the
daemon itself does on the way, such as its actions on errors, is that of `LibAudit.Auditd.Log`; it
does not touch the files.  In particular a rotation that is the action on a full disk comes to nothing
inside of a rotation: it closes the stream, which is closed already.

A rename that fails does not end the rotation.  So the next one puts log `i - 1` in the place of a
log `i` that has not been moved, and its contents are gone.  `rotates_iff` says that this is the only
way to lose contents, other than those of the oldest log.
-/

namespace LibAudit.Auditd.Files

open Hoare Spool Function

/-! ## The files -/

/-- The contents of a log: those that log `number` had before, or none. -/
inductive Held
  | old (number : Nat)
  | empty
  deriving DecidableEq, Repr

/-- How a rename comes out.  The source may be missing. -/
inductive Attempt
  | moved | missing | failed
  deriving DecidableEq, Repr

/-- The daemon and the logs. -/
structure LogDir where
  daemon : Daemon
  /-- `open_audit_log` creates a log before it fails. -/
  creates : Bool
  files : Nat → Option Held
  /-- The renames so far, by the number of the target. -/
  attempts : Nat → Option Attempt

/-- The names of the logs are used although they are not set, or the stream although it is `NULL`. -/
inductive Fault
  | stream (f : StreamFault)
  | name
  deriving DecidableEq, Repr

/-- A computation on the daemon and the logs. -/
abbrev DirM := EStateM Fault LogDir

/-- A computation of the daemon that leaves the logs alone. -/
def onDaemon {α : Type} (m : LogM α) : DirM α := fun s =>
  match m s.daemon with
  | .ok a d => .ok a { s with daemon := d }
  | .error f d => .error (.stream f) { s with daemon := d }

/-- The rename of log `i` to log `i + 1`, if the call gives `rc` for a source that exists. -/
def attempt (rc : Option Errno) (i : Nat) (s : LogDir) : Attempt :=
  match s.files i, rc with
  | none, _ => .missing
  | some _, some _ => .failed
  | some _, none => .moved

/-- The logs after that. -/
def LogDir.renamed (s : LogDir) (rc : Option Errno) (i : Nat) : LogDir :=
  { s with
    files := if attempt rc i s = .moved then
        update (update s.files (i + 1) (s.files i)) i none
      else s.files
    attempts := update s.attempts (i + 1) (some (attempt rc i s)) }

@[simp]
theorem LogDir.attempts_renamed (s : LogDir) (rc : Option Errno) (i : Nat) :
    (s.renamed rc i).attempts = update s.attempts (i + 1) (some (attempt rc i s)) := rfl

/-- `rename`, from log `i` to log `i + 1`: the error, if any. -/
def rename (i : Nat) : DirM (Option Errno) := do
  let rc ← onDaemon (outcome Calls.rename)
  modifyGet fun s => (if attempt rc i s = .missing then some .enoent else rc, s.renamed rc i)

/-! ## Rotation -/

/-- Log `i` becomes log `i + 1`, in the loop of `rotate_logs`. -/
def renameLog (i : Nat) : DirM Unit := do
  match ← rename i with
  | none => onDaemon (modify fun d => if d.knownLogs = 0 then { d with knownLogs := i + 2 } else d)
  | some .enoent => pure ()
  | some e => onDaemon (renameError doDiskFullActionInner e)

/-- The loop of `rotate_logs`, from log `i` down to log 2. -/
def renameLogs : Nat → DirM Unit
  | 0 => pure ()
  | 1 => pure ()
  | i + 2 => do
    renameLog (i + 1)
    renameLogs (i + 1)

/-- The log itself becomes log 1. -/
def renameCurrent : DirM Unit := do
  match ← rename 0 with
  | none => pure ()
  | some .enoent => pure ()
  | some e => onDaemon (renameError doDiskFullActionInner e)

/-- A log that is not there is created, if the calls of `open_audit_log` get that far. -/
def LogDir.created (s : LogDir) (failed : Bool) : LogDir :=
  if s.daemon.config.writeLogs = true ∧ (failed = false ∨ s.creates = true) ∧ s.files 0 = none then
    { s with files := update s.files 0 (some .empty) }
  else s

/-- A new log is opened after the rotation. -/
def reopenAfterRotate : DirM Unit := do
  let failed ← onDaemon openAuditLog
  modify fun s => s.created failed
  onDaemon (whenever (failed = true) do
    suspendLogging
    doDiskErrorAction)

/-- `rotate_logs`.  The name of log 1 is left from the loop; there is none if the loop is not entered
because the number of logs is too small, or negative as an `int`. -/
def rotateLogs (numLogs : Nat) (keepLogs : Bool) : DirM Unit := do
  let config := (← get).daemon.config
  if config.numLogs < 2 ∧ keepLogs = false then pure ()
  else do
    onDaemon closeLog
    let oldname ← onDaemon (outcome Calls.malloc)
    if oldname = false then onDaemon suspendLogging
    else do
      let newname ← onDaemon (outcome Calls.malloc)
      if newname = false then onDaemon suspendLogging
      else do
        onDaemon (modify fun d => { d with knownLogs := 0 })
        let n := if numLogs = 0 then config.numLogs else numLogs
        if n < 2 ∨ 2 ^ 31 ≤ n then throw .name
        else do
          renameLogs (n - 1)
          renameCurrent
          reopenAfterRotate

/-- The loops of `shift_logs`: the first number from `numLogs` on that is not taken.  After `fuel`
steps the counter is 0 again. -/
def scan (files : Nat → Option Held) : Nat → Nat → Nat
  | 0, _ => 0
  | fuel + 1, numLogs =>
    if numLogs = 0 then 0
    else if files numLogs = none then numLogs
    else scan files fuel (numLogs + 1)

/-- The number that the log before the oldest gets. -/
def nextLog (files : Nat → Option Held) (lastLog : Nat) : Nat :=
  let numLogs := scan files (2 ^ 32 - lastLog) lastLog
  -- our last known file disappeared, start over
  if numLogs ≤ lastLog ∧ 1 < lastLog then scan files (2 ^ 32 - 1) 1 else numLogs

/-- `shift_logs`. -/
def shiftLogs : DirM Unit := do
  let name ← onDaemon (outcome Calls.malloc)
  if name = false then pure ()
  else do
    let s ← get
    let numLogs := nextLog s.files s.daemon.lastLog
    onDaemon (modify fun d =>
      { d with
        knownLogs := scan s.files (2 ^ 32 - d.lastLog) d.lastLog
        lastLog := numLogs })
    rotateLogs ((numLogs + 1) % 2 ^ 32) true

/-- `rotate_logs_now`, and what is done about a log that is too large. -/
def rotateLogsNow : DirM Unit := do
  let s ← get
  if s.daemon.config.maxLogSizeAction = .keepLogs then shiftLogs else rotateLogs 0 false

/-! ## What is asked for -/

/-- The logs before a rotation, each with its own contents. -/
def start (d : Daemon) (creates : Bool) (present : Nat → Bool) : LogDir where
  daemon := d
  creates := creates
  files i := if present i then some (.old i) else none
  attempts _ := none

/-- The state a run leaves behind, whether it ends well or not. -/
def after (m : DirM Unit) (s : LogDir) : LogDir :=
  match m s with
  | .ok _ s' => s'
  | .error _ s' => s'

/-- All logs are kept. -/
def Keeping (d : Daemon) : Prop := d.config.maxLogSizeAction = .keepLogs

instance (d : Daemon) : Decidable (Keeping d) := inferInstanceAs (Decidable (_ = _))

/-- The number that the oldest log gets if all are kept. -/
def freeLog (d : Daemon) (present : Nat → Bool) : Nat :=
  nextLog (start d false present).files d.lastLog

/-- The number of logs: as configured, or one more than the number that is not taken.  If that is 0 for
want of numbers, it is as configured again. -/
def numLogs (d : Daemon) (present : Nat → Bool) : Nat :=
  if Keeping d ∧ freeLog d present + 1 ≠ 2 ^ 32 then freeLog d present + 1 else d.config.numLogs

/-- No rename has failed. -/
def NoFailure (s : LogDir) : Prop := ∀ i, s.attempts i ≠ some .failed

/-- What a rotation of `n` logs should do.  The oldest log is only given up if not all are kept. -/
structure Rotated (d : Daemon) (present : Nat → Bool) (n : Nat) (s : LogDir) : Prop where
  moved : NoFailure s → ∀ i, i + 1 < n → present i = true →
    s.files (i + 1) = some (.old i) ∧ s.files i ≠ some (.old i)
  opened : NoFailure s → s.files 0 = some .empty
  kept : ∀ i, present i = true → (¬ Keeping d ∧ i + 1 = n) ∨ ∃ j, s.files j = some (.old i)

/-- What a rotation of `n` logs needs besides the renames: the stream is open, there is memory for the
names, the number of logs is an `int`, and a new log is created. -/
structure Supplied (d : Daemon) (creates : Bool) (n : Nat) : Prop where
  logFile : d.logFile = true
  oldname : d.calls.malloc d.tick = true
  newname : d.calls.malloc (d.tick + 1) = true
  number : 2 ≤ n ∧ n < 2 ^ 31
  writeLogs : d.config.writeLogs = true
  created : (d.calls.openLog (d.tick + n + 1)).isSome = true ∨ creates = true

/-- The same for a rotation on request, which asks for memory once more if all logs are kept. -/
def SuppliedNow (d : Daemon) (creates : Bool) (present : Nat → Bool) : Prop :=
  if Keeping d then
    d.calls.malloc d.tick = true ∧
      Supplied { d with tick := d.tick + 1 } creates (numLogs d present)
  else Supplied d creates (numLogs d present)

/-- No log takes the place of one that could not be moved, nor that of the oldest when all are kept
and there is no number left for it. -/
structure NoneOverwritten (d : Daemon) (present : Nat → Bool) (n : Nat) (s : LogDir) : Prop where
  failed : ∀ i, i + 1 < n → s.attempts (i + 1) = some .failed → s.attempts i ≠ some .moved
  oldest : Keeping d → freeLog d present + 1 = 2 ^ 32 → present (n - 1) = true →
    s.attempts (n - 1) ≠ some .moved

/-! ## What the renames leave behind -/

section Renames

variable {present : Nat → Bool} {d : Daemon} {c : Bool} {n k t : Nat}

/-- Log `j` after the renames, before a new log is opened. -/
def shown (present : Nat → Bool) (attempts : Nat → Option Attempt) (j : Nat) : Option Held :=
  if attempts j = some .moved then some (.old (j - 1))
  else if attempts (j + 1) = some .moved then none
  else if present j then some (.old j)
  else none

/-- The renames to the logs above `k` have been tried, and those to `k` and below have not. -/
structure Tried (present : Nat → Bool) (n k : Nat) (attempts : Nat → Option Attempt) : Prop where
  done : ∀ j, k < j → j < n → attempts j ≠ none
  todo : ∀ j, j ≤ k ∨ n ≤ j → attempts j = none
  missing : ∀ j a, attempts (j + 1) = some a → (a = .missing ↔ present j = false)

/-- The renames above `k` have been tried, and the logs are as they left them. -/
structure Tracks (present : Nat → Bool) (n k : Nat) (s : LogDir) : Prop where
  tried : Tried present n k s.attempts
  files : ∀ j, s.files j = shown present s.attempts j

/-- The daemon has made the calls up to number `t`. -/
structure Quiet (d : Daemon) (c : Bool) (t : Nat) (s : LogDir) : Prop where
  calls : s.daemon.calls = d.calls
  config : s.daemon.config = d.config
  tick : s.daemon.tick = t
  creates : s.creates = c

/-- The renames above `k` have been tried, and the daemon has done nothing else if none has failed. -/
def Going (d : Daemon) (c : Bool) (present : Nat → Bool) (n k t : Nat) (s : LogDir) : Prop :=
  Tracks present n k s ∧ (NoFailure s → Quiet d c t s)

/-- The daemon does not survive a rename that failed. -/
def Broken (present : Nat → Bool) (n : Nat) (s : LogDir) : Prop :=
  (∃ k, Tracks present n k s) ∧ ¬ NoFailure s

variable {i : Nat} {s : LogDir} {rc : Option Errno}

/-- A log whose rename has not been tried, nor the one that follows, is as it was. -/
theorem Tracks.files_of_todo (h : Tracks present n k s) (hi : i < k) :
    s.files i = if present i then some (.old i) else none := by
  rw [h.files, shown, h.tried.todo i (.inl hi.le), h.tried.todo (i + 1) (.inl hi)]
  rfl

theorem NoFailure.of_renamed (h : Tracks present n k s) (hi : i < k) (hs : NoFailure (s.renamed rc i)) :
    NoFailure s ∧ attempt rc i s ≠ .failed := by
  refine ⟨fun j hj => ?_, fun hf => ?_⟩
  · rcases eq_or_ne j (i + 1) with rfl | hne
    · rw [h.tried.todo (i + 1) (.inl hi)] at hj
      cases hj
    · refine hs j ?_
      rw [LogDir.attempts_renamed, update_of_ne hne]
      exact hj
  · refine hs (i + 1) ?_
    rw [LogDir.attempts_renamed, update_self, hf]

theorem attempt_moved (h : attempt rc i s = .moved) : rc = none ∧ s.files i ≠ none := by
  unfold attempt at h
  split at h <;> simp_all

theorem attempt_eq_missing : attempt rc i s = .missing ↔ s.files i = none := by
  unfold attempt
  split <;> simp_all

/-- The next rename. -/
theorem Tracks.renamed (h : Tracks present n (i + 1) s) (hi : i + 1 < n)
    (rc : Option Errno) : Tracks present n i (s.renamed rc i) := by
  have hfile := h.files_of_todo i.lt_succ_self
  have hi0 : s.attempts i = none := h.tried.todo i (.inl i.le_succ)
  have hi1 : s.attempts (i + 1) = none := h.tried.todo (i + 1) (.inl le_rfl)
  refine ⟨⟨fun j hij hjn => ?_, fun j hj => ?_, fun j a hj => ?_⟩, fun j => ?_⟩
  · rcases eq_or_ne j (i + 1) with rfl | hne
    · simp [LogDir.renamed]
    · rw [LogDir.attempts_renamed, update_of_ne hne]
      exact h.tried.done j (by omega) hjn
  · rw [LogDir.attempts_renamed, update_of_ne (by omega)]
    exact h.tried.todo j (by omega)
  · rcases eq_or_ne j i with rfl | hne
    · rw [LogDir.attempts_renamed, update_self, Option.some.injEq] at hj
      rw [← hj, attempt_eq_missing, hfile]
      simp
    · rw [LogDir.attempts_renamed, update_of_ne (by omega)] at hj
      exact h.tried.missing j a hj
  · by_cases hm : attempt rc i s = .moved
    · -- the source is there, and it is as it was
      have hsome : s.files i = some (.old i) := by
        have := (attempt_moved hm).2
        simp_all
      simp only [LogDir.renamed, hm, if_true, shown]
      rcases eq_or_ne j i with rfl | hne
      · simp [hi0]
      · rw [update_of_ne hne]
        rcases eq_or_ne j (i + 1) with rfl | hne'
        · simp [hsome]
        · rw [update_of_ne hne', update_of_ne hne',
            update_of_ne (by omega), h.files, shown]
    · -- nothing moves
      have hne : some (attempt rc i s) ≠ some Attempt.moved := by simpa using hm
      simp only [LogDir.renamed, if_neg hm, shown]
      rw [h.files, shown]
      rcases eq_or_ne j (i + 1) with rfl | hj
      · simp_all
      · rw [update_of_ne hj]
        rcases eq_or_ne j i with rfl | hj'
        · rw [update_self, hi0, hi1, if_neg hne]
          rfl
        · rw [update_of_ne (by omega : j + 1 ≠ i + 1)]

/-! ## One step of the rotation after the other -/

/-- What the daemon does leaves the logs alone.  It does not get a failed rename undone. -/
theorem broken_onDaemon (m : LogM Unit) :
    Triple (fun s => Tracks present n k s ∧ ¬ NoFailure s) (onDaemon m)
      (fun _ => Going d c present n k t) (fun _ => Broken present n) := by
  rintro s ⟨h, hf⟩
  unfold onDaemon
  cases m s.daemon with
  | ok a d' => exact ⟨{ h with }, fun hn => absurd hn hf⟩
  | error e d' => exact ⟨⟨k, h.tried, h.files⟩, hf⟩

/-- An update of the daemon's own data. -/
theorem going_modify {f : Daemon → Daemon} (hf : ∀ x, (f x).calls = x.calls ∧
    (f x).config = x.config ∧ (f x).tick = x.tick) :
    Triple (Going d c present n k t) (onDaemon (modify f)) (fun _ => Going d c present n k t)
      (fun _ => Broken present n) := by
  rintro s ⟨h, hq⟩
  refine ⟨{ h with }, fun hn => ?_⟩
  have := hq hn
  obtain ⟨h1, h2, h3⟩ := hf s.daemon
  exact ⟨h1.trans this.calls, h2.trans this.config, h3.trans this.tick, this.creates⟩

/-- If no rename has failed, this one has not, except that there may be nothing to rename. -/
theorem rename_spec (hi : i + 1 < n) : Triple (Going d c present n (i + 1) t) (rename i)
      (fun e s => Going d c present n i (t + 1) s ∧
        (NoFailure s → e = none ∨ e = some .enoent))
      (fun _ => Broken present n) := by
  rintro s ⟨h, hq⟩
  let rc := s.daemon.calls.rename s.daemon.tick
  let s₁ : LogDir := { s with daemon := { s.daemon with tick := s.daemon.tick + 1 } }
  have h₁ : Tracks present n (i + 1) s₁ := { h with }
  refine ⟨⟨h₁.renamed hi rc, fun hn => ?_⟩, fun hn => ?_⟩
  · have := hq (NoFailure.of_renamed h₁ i.lt_succ_self hn).1
    exact ⟨this.calls, this.config, congrArg (· + 1) this.tick, this.creates⟩
  · have hfail := (NoFailure.of_renamed h₁ i.lt_succ_self hn).2
    cases ha : attempt rc i s₁ with
    | missing => exact .inr rfl
    | failed => exact absurd ha hfail
    | moved => exact .inl (attempt_moved ha).1

/-- What follows a rename: `m` if it succeeds, an action if it fails. -/
theorem afterRename_spec (hi : i + 1 < n) {m : DirM Unit}
    (hm : Triple (Going d c present n i (t + 1)) m (fun _ => Going d c present n i (t + 1))
      (fun _ => Broken present n)) :
    Triple (Going d c present n (i + 1) t)
      (rename i >>= fun
        | none => m
        | some .enoent => pure ()
        | some e => onDaemon (renameError doDiskFullActionInner e))
      (fun _ => Going d c present n i (t + 1)) (fun _ => Broken present n) := by
  refine (rename_spec hi).bind fun e => ?_
  split
  · exact hm.pre fun s hs => hs.1
  · exact .pure _ fun s hs => hs.1
  · rename_i e hne
    refine (broken_onDaemon _).pre fun s hs => ⟨hs.1.1, fun hn => ?_⟩
    simp_all

theorem renameLog_spec (hi : i + 1 < n) :
    Triple (Going d c present n (i + 1) t) (renameLog i) (fun _ => Going d c present n i (t + 1))
      (fun _ => Broken present n) :=
  afterRename_spec hi (going_modify fun x => by split <;> exact ⟨rfl, rfl, rfl⟩)

theorem renameCurrent_spec (hn : 1 < n) :
    Triple (Going d c present n 1 t) renameCurrent (fun _ => Going d c present n 0 (t + 1))
      (fun _ => Broken present n) :=
  afterRename_spec hn (.pure _ fun _ hs => hs)

/-- The loop, from any log on. -/
theorem renameLogs_spec : ∀ (i t : Nat), i + 1 < n →
    Triple (Going d c present n (i + 1) t) (renameLogs (i + 1))
      (fun _ => Going d c present n 1 (t + i)) (fun _ => Broken present n)
  | 0, t, _ => .pure _ fun _ hs => hs
  | i + 1, t, hi => by
    refine (renameLog_spec hi).bind fun _ => ?_
    have := renameLogs_spec i (t + 1) (by omega)
    rwa [show t + 1 + i = t + (i + 1) by omega] at this

/-! ## The end of a rotation -/

/-- The logs after a rotation, which had what it needs or not. -/
structure Outcome (present : Nat → Bool) (n : Nat) (supplied : Prop) (s : LogDir) : Prop where
  tried : ∃ k, Tried present n k s.attempts
  files : ∀ j, j ≠ 0 → s.files j = shown present s.attempts j
  first : s.files 0 = shown present s.attempts 0 ∨
    (shown present s.attempts 0 = none ∧ s.files 0 = some .empty)
  opened : NoFailure s → (s.files 0 = some .empty ↔ supplied)
  complete : NoFailure s → supplied → Tried present n 0 s.attempts

variable {supplied : Prop}

theorem Broken.outcome (h : Broken present n s) : Outcome present n supplied s := by
  obtain ⟨⟨k, hk⟩, hf⟩ := h
  exact ⟨⟨k, hk.tried⟩, fun j _ => hk.files j, .inl (hk.files 0), fun hn => absurd hn hf,
    fun hn => absurd hn hf⟩

/-- A rotation that does not get to the renames. -/
theorem Outcome.of_start (h : ¬ supplied) : Outcome present n supplied (start d c present) where
  tried := ⟨n, fun j hj hjn => absurd (hj.trans hjn) (lt_irrefl n), fun _ _ => rfl, nofun⟩
  files _ _ := rfl
  first := .inl rfl
  opened _ := by
    refine iff_of_false ?_ h
    show (if present 0 then some (Held.old 0) else none) ≠ _
    split <;> simp
  complete _ hs := absurd hs h

/-- If no rename has failed, there is no log any more when a new one is opened. -/
theorem Tracks.files_zero (h : Tracks present n 0 s) (hn : 1 < n) (hf : NoFailure s) :
    s.files 0 = none := by
  have h0 : s.attempts 0 = none := h.tried.todo 0 (.inl le_rfl)
  rw [h.files, shown, h0, if_neg (by simp)]
  cases h1 : s.attempts 1 with
  | none => exact absurd h1 (h.tried.done 1 Nat.one_pos hn)
  | some a =>
    cases a with
    | moved => rfl
    | failed => exact absurd h1 (hf 1)
    | missing =>
      rw [(h.tried.missing 0 _ h1).1 rfl]
      rfl

/-- `open_audit_log` returns whether it failed, and nothing happens to the configuration. -/
theorem openAuditLog_run (d : Daemon) : ∃ failed d', openAuditLog d = .ok failed d' ∧
    d'.config = d.config ∧
    (d.config.writeLogs = true → failed = (d.calls.openLog d.tick).isNone) := by
  simp only [openAuditLog, bind, EStateM.bind, get, getThe, MonadStateOf.get, get_apply]
  split
  · rename_i hoff
    exact ⟨false, d, rfl, rfl, fun hw => absurd (hw.symm.trans hoff) (by decide)⟩
  · simp only [EStateM.bind, outcome, modifyGet, MonadStateOf.modifyGet, modifyGet_apply]
    cases ho : d.calls.openLog d.tick with
    | none => exact ⟨true, _, rfl, rfl, fun _ => rfl⟩
    | some size => exact ⟨false, _, rfl, rfl, fun _ => rfl⟩

theorem openAuditLog_spec : Triple (Going d c present n 0 t) (onDaemon openAuditLog)
      (fun failed s => Tracks present n 0 s ∧ (NoFailure s → s.daemon.config = d.config ∧
        s.creates = c ∧ (d.config.writeLogs = true → failed = (d.calls.openLog t).isNone)))
      (fun _ => Broken present n) := by
  rintro s ⟨h, hq⟩
  obtain ⟨failed, d', hrun, hconfig, hfailed⟩ := openAuditLog_run s.daemon
  rw [onDaemon, hrun]
  refine ⟨{ h with }, fun hn => ?_⟩
  have hquiet := hq hn
  rw [hquiet.calls, hquiet.config, hquiet.tick] at hfailed
  exact ⟨hconfig.trans hquiet.config, hquiet.creates, hfailed⟩

/-- A new log is there if it could be created. -/
theorem Tracks.created (h : Tracks present n 0 s) (hn : 1 < n) {failed : Bool}
    (hs : NoFailure s → (supplied ↔
      s.daemon.config.writeLogs = true ∧ (failed = false ∨ s.creates = true))) :
    Outcome present n supplied (s.created failed) := by
  by_cases hc : s.daemon.config.writeLogs = true ∧ (failed = false ∨ s.creates = true) ∧
      s.files 0 = none
  · have h0 : update s.files 0 (some .empty) 0 = some .empty := update_self ..
    rw [LogDir.created, if_pos hc]
    refine ⟨⟨0, h.tried⟩, fun j hj => ?_, .inr ⟨?_, h0⟩, fun hf => ?_, fun _ _ => h.tried⟩
    · exact (update_of_ne hj _ _).trans (h.files j)
    · exact (h.files 0).symm.trans hc.2.2
    · exact iff_of_true h0 ((hs hf).2 ⟨hc.1, hc.2.1⟩)
  · rw [LogDir.created, if_neg hc]
    refine ⟨⟨0, h.tried⟩, fun j _ => h.files j, .inl (h.files 0), fun hf => ?_, fun _ _ => h.tried⟩
    have h0 := h.files_zero hn hf
    simp_all

theorem outcome_onDaemon {α : Type} (m : LogM α) :
    Triple (Outcome present n supplied) (onDaemon m) (fun _ => Outcome present n supplied)
      (fun _ => Outcome present n supplied) := by
  intro s hs
  unfold onDaemon
  cases m s.daemon <;> exact { hs with }

theorem reopenAfterRotate_spec (hn : 1 < n) (hs : supplied ↔
    d.config.writeLogs = true ∧ ((d.calls.openLog t).isSome = true ∨ c = true)) :
    Triple (Going d c present n 0 t) reopenAfterRotate (fun _ => Outcome present n supplied)
      (fun _ => Outcome present n supplied) := by
  refine (openAuditLog_spec.err fun _ _ => Broken.outcome).bind
    fun failed => .bind (.modify ?_) fun _ => outcome_onDaemon _
  rintro s ⟨h, hq⟩
  refine h.created hn fun hf => ?_
  simp_all

/-! ## The whole rotation -/

theorem closeLog_spec : Triple (· = start d c present) (onDaemon closeLog)
      (fun _ s => d.logFile = true ∧ s = start { d with logFile := false } c present)
      (fun _ s => d.logFile = false ∧ s = start d c present) := by
  rintro s rfl
  simp only [onDaemon, closeLog, start, bind, EStateM.bind, get, getThe, MonadStateOf.get, get_apply]
  cases hl : d.logFile with
  | false => exact ⟨rfl, rfl⟩
  | true => exact ⟨rfl, rfl⟩

theorem malloc_spec {E : Fault → LogDir → Prop} :
    Triple (· = start d c present) (onDaemon (outcome Calls.malloc))
      (fun a s => a = d.calls.malloc d.tick ∧ s = start { d with tick := d.tick + 1 } c present) E := by
  rintro s rfl
  exact ⟨rfl, rfl⟩

/-- The renames, once their names are known. -/
theorem renames_spec (hn : 1 < n) (hs : supplied ↔
    d.config.writeLogs = true ∧ ((d.calls.openLog (d.tick + n - 1)).isSome = true ∨ c = true)) :
    Triple (· = start d c present) (do renameLogs (n - 1); renameCurrent; reopenAfterRotate)
      (fun _ => Outcome present n supplied) (fun _ => Outcome present n supplied) := by
  obtain ⟨m, rfl⟩ : ∃ m, n = m + 2 := ⟨n - 2, by omega⟩
  have hbroken : ∀ (_ : Fault) s, Broken present (m + 2) s → Outcome present (m + 2) supplied s :=
    fun _ _ => Broken.outcome
  have hloop : Triple (Going d c present (m + 2) (m + 1) d.tick) (renameLogs (m + 1)) _ _ :=
    renameLogs_spec m d.tick (by omega)
  refine (hloop.conseq ?_ (fun _ _ => id) hbroken).bind fun _ =>
    ((renameCurrent_spec hn).err hbroken).bind fun _ =>
      reopenAfterRotate_spec hn hs
  rintro s rfl
  refine ⟨⟨⟨fun j hj hjn => by omega, fun _ _ => rfl, nofun⟩, fun _ => rfl⟩, fun _ => ?_⟩
  exact ⟨rfl, rfl, rfl, rfl⟩

/-- **What `rotate_logs` does**, for the number of logs it works with. -/
theorem rotateLogs_spec {numLogs : Nat} {keepLogs : Bool}
    (hgo : ¬ (d.config.numLogs < 2 ∧ keepLogs = false))
    (hn : (if numLogs = 0 then d.config.numLogs else numLogs) = n) :
    Triple (· = start d c present) (rotateLogs numLogs keepLogs)
      (fun _ => Outcome present n (Supplied d c n)) (fun _ => Outcome present n (Supplied d c n)) := by
  refine .get_bind fun s hs => ?_
  subst hs
  refine .ite (fun h => absurd h hgo) fun _ => ?_
  refine .bind (closeLog_spec.err ?_) fun _ =>
    .of_pure fun hlog => malloc_spec.bind fun oldname => .of_pure fun hold => ?_
  · rintro _ s ⟨hlog, rfl⟩
    exact Outcome.of_start fun h => by simp [h.logFile] at hlog
  refine .ite (fun hfalse => ?_) fun htrue => malloc_spec.bind fun newname => .of_pure fun hnew => ?_
  · refine (outcome_onDaemon _).pre ?_
    rintro s rfl
    exact Outcome.of_start fun h => Bool.false_ne_true (hfalse.symm.trans (hold.trans h.oldname))
  refine .ite (fun hfalse => ?_) fun htrue' => ?_
  · refine (outcome_onDaemon _).pre ?_
    rintro s rfl
    exact Outcome.of_start fun h => Bool.false_ne_true (hfalse.symm.trans (hnew.trans h.newname))
  refine .bind (Q := fun _ s => s = start
    { d with logFile := false, tick := d.tick + 1 + 1, knownLogs := 0 } c present) ?_ fun _ => ?_
  · rintro s rfl
    rfl
  have hn' : (if numLogs = 0 then (start d c present).daemon.config.numLogs else numLogs) = n := hn
  simp only [hn']
  refine .ite (fun hbad => .throw _ ?_) fun hgood => ?_
  · rintro s rfl
    exact Outcome.of_start fun h => by have := h.number; omega
  · refine renames_spec (by omega) ⟨fun h => ⟨h.writeLogs, ?_⟩, fun h => ?_⟩
    · have := h.created
      rwa [show d.tick + n + 1 = d.tick + 1 + 1 + n - 1 by omega] at this
    · refine ⟨hlog, ?_, ?_, by omega, h.1, ?_⟩
      · exact hold.symm.trans (by simpa using htrue)
      · exact hnew.symm.trans (by simpa using htrue')
      · rw [show d.tick + n + 1 = d.tick + 1 + 1 + n - 1 by omega]
        exact h.2

/-- The number found is not taken, unless none is. -/
theorem scan_eq (files : Nat → Option Held) : ∀ fuel i,
    scan files fuel i = 0 ∨ (files (scan files fuel i) = none ∧ scan files fuel i < i + fuel)
  | 0, _ => .inl rfl
  | fuel + 1, i => by
    unfold scan
    split
    · exact .inl rfl
    · split
      · rename_i hfree
        exact .inr ⟨hfree, by omega⟩
      · rcases scan_eq files fuel (i + 1) with h | ⟨hfree, hlt⟩
        · exact .inl h
        · exact .inr ⟨hfree, by omega⟩

theorem nextLog_eq (files : Nat → Option Held) (lastLog : Nat) : nextLog files lastLog = 0 ∨
      (files (nextLog files lastLog) = none ∧ nextLog files lastLog < 2 ^ 32) := by
  unfold nextLog
  dsimp only
  split
  · rcases scan_eq files (2 ^ 32 - 1) 1 with h | ⟨hfree, hlt⟩
    · exact .inl h
    · exact .inr ⟨hfree, by omega⟩
  · by_cases hlast : lastLog < 2 ^ 32
    · rcases scan_eq files (2 ^ 32 - lastLog) lastLog with h | ⟨hfree, hlt⟩
      · exact .inl h
      · exact .inr ⟨hfree, by omega⟩
    · rw [show 2 ^ 32 - lastLog = 0 by omega]
      exact .inl rfl

/-- If all logs are kept, none has the last number, unless there is no number left. -/
theorem oldest_of_keeping (h : Keeping d) (hroom : freeLog d present + 1 ≠ 2 ^ 32) :
    numLogs d present < 2 ∨ present (numLogs d present - 1) = false := by
  rw [numLogs, if_pos ⟨h, hroom⟩, Nat.add_sub_cancel]
  rcases nextLog_eq (start d false present).files d.lastLog with h0 | ⟨hfree, -⟩
  · refine .inl ?_
    rw [freeLog, h0]
    decide
  · refine .inr ?_
    simpa [start, freeLog] using hfree

/-- The argument of `rotate_logs` if all logs are kept. -/
theorem numLogs_of_keeping (h : Keeping d) :
    (if (freeLog d present + 1) % 2 ^ 32 = 0 then d.config.numLogs
      else (freeLog d present + 1) % 2 ^ 32) = numLogs d present := by
  have hlt : freeLog d present < 2 ^ 32 := by
    rcases nextLog_eq (start d false present).files d.lastLog with h0 | ⟨-, hlt⟩
    · rw [freeLog, h0]
      decide
    · exact hlt
  rw [numLogs]
  grind

theorem shiftLogs_spec (h : Keeping d) : Triple (· = start d c present) shiftLogs
      (fun _ => Outcome present (numLogs d present) (SuppliedNow d c present))
      (fun _ => Outcome present (numLogs d present) (SuppliedNow d c present)) := by
  rw [SuppliedNow, if_pos h]
  refine malloc_spec.bind fun name => .of_pure fun hname => ?_
  refine .ite (fun hfalse => ?_) fun htrue => .get_bind fun s hs => ?_
  · refine .pure _ ?_
    rintro s rfl
    exact Outcome.of_start fun h => Bool.false_ne_true (hfalse.symm.trans (hname.trans h.1))
  subst hs
  let d' : Daemon :=
    { d with
      tick := d.tick + 1
      knownLogs := scan (start d c present).files (2 ^ 32 - d.lastLog) d.lastLog
      lastLog := freeLog d present }
  refine .bind (Q := fun _ s => s = start d' c present) ?_ fun _ => ?_
  · rintro s rfl
    rfl
  have hs : (d.calls.malloc d.tick = true ∧
      Supplied { d with tick := d.tick + 1 } c (numLogs d present)) =
      Supplied d' c (numLogs d present) := by
    refine propext ⟨fun ⟨_, h⟩ => { h with }, fun h => ⟨?_, { h with }⟩⟩
    exact hname.symm.trans (by simpa using htrue)
  rw [hs]
  exact rotateLogs_spec (by simp) (numLogs_of_keeping h)

/-- **What a rotation on request does.** -/
theorem rotateLogsNow_spec (hn : Keeping d ∨ 2 ≤ d.config.numLogs) :
    Triple (· = start d c present) rotateLogsNow
      (fun _ => Outcome present (numLogs d present) (SuppliedNow d c present))
      (fun _ => Outcome present (numLogs d present) (SuppliedNow d c present)) := by
  refine .get_bind fun s hs => ?_
  subst hs
  refine .ite (fun hkeep => shiftLogs_spec hkeep) fun hkeep => ?_
  have hkeep : ¬ Keeping d := hkeep
  rw [SuppliedNow, if_neg hkeep, numLogs, if_neg fun h => hkeep h.1]
  have := hn.resolve_left hkeep
  exact rotateLogs_spec (by omega) rfl

theorem outcome_after (hn : Keeping d ∨ 2 ≤ d.config.numLogs) :
    Outcome present (numLogs d present) (SuppliedNow d c present)
      (after rotateLogsNow (start d c present)) := by
  have h := rotateLogsNow_spec hn (start d c present) rfl
  unfold after
  split
  · rename_i hrun
    rw [hrun] at h
    exact h
  · rename_i hrun
    rw [hrun] at h
    exact h

/-! ## When contents are lost -/

theorem shown_eq_old {attempts : Nat → Option Attempt} {j : Nat} :
    shown present attempts j = some (.old i) ↔ (attempts j = some .moved ∧ j - 1 = i) ∨
      (attempts j ≠ some .moved ∧ attempts (j + 1) ≠ some .moved ∧ present j = true ∧ j = i) := by
  unfold shown
  split <;> simp_all

theorem Outcome.kept_iff (h : Outcome present n supplied s)
    (hi : present i = true) : (∃ j, s.files j = some (.old i)) ↔
      s.attempts (i + 1) = some .moved ∨ s.attempts i ≠ some .moved := by
  have hzero : s.attempts 0 = none := by
    obtain ⟨k, hk⟩ := h.tried
    exact hk.todo 0 (.inl k.zero_le)
  constructor
  · rintro ⟨j, hj⟩
    have hshown : shown present s.attempts j = some (.old i) := by
      rcases eq_or_ne j 0 with rfl | hne
      · rcases h.first with hf | ⟨-, hf⟩
        · exact hf.symm.trans hj
        · rw [hf] at hj
          cases hj
      · exact (h.files j hne).symm.trans hj
    rcases shown_eq_old.1 hshown with ⟨hm, hij⟩ | ⟨hm, -, -, rfl⟩
    · grind
    · exact .inr hm
  · intro hkept
    by_cases hm : s.attempts (i + 1) = some .moved
    · refine ⟨i + 1, ?_⟩
      rw [h.files _ i.succ_ne_zero, shown_eq_old]
      exact .inl ⟨hm, rfl⟩
    · have hshown : shown present s.attempts i = some (.old i) :=
        shown_eq_old.2 (.inr ⟨hkept.resolve_left hm, hm, hi, rfl⟩)
      refine ⟨i, ?_⟩
      rcases eq_or_ne i 0 with rfl | hne
      · rcases h.first with hf | ⟨hf, -⟩
        · exact hf.trans hshown
        · rw [hf] at hshown
          cases hshown
      · exact (h.files i hne).trans hshown

theorem Tried.attempted {attempts : Nat → Option Attempt} (h : Tried present n k attempts)
    (hki : k ≤ i) (hin : i + 1 < n) (hi : present i = true) :
    attempts (i + 1) = some .moved ∨ attempts (i + 1) = some .failed := by
  cases ha : attempts (i + 1) with
  | none => exact absurd ha (h.done _ (by omega) hin)
  | some a =>
    cases a with
    | moved => exact .inl rfl
    | failed => exact .inr rfl
    | missing =>
      have := (h.missing i _ ha).1 rfl
      rw [hi] at this
      cases this

theorem Outcome.moved (h : Outcome present n supplied s) (hf : NoFailure s)
    (hs : supplied) (hin : i + 1 < n) (hi : present i = true) :
    s.files (i + 1) = some (.old i) ∧ s.files i ≠ some (.old i) := by
  have hm : s.attempts (i + 1) = some .moved :=
    ((h.complete hf hs).attempted i.zero_le hin hi).resolve_right (hf _)
  refine ⟨?_, fun hfile => ?_⟩
  · rw [h.files _ i.succ_ne_zero, shown_eq_old]
    exact .inl ⟨hm, rfl⟩
  · rcases eq_or_ne i 0 with rfl | hne
    · rw [(h.opened hf).2 hs] at hfile
      cases hfile
    · rw [h.files _ hne, shown_eq_old] at hfile
      rcases hfile with ⟨-, heq⟩ | ⟨-, hnot, -⟩
      · omega
      · exact hnot hm

theorem Outcome.rotated_iff (h : Outcome present (numLogs d present) supplied s) :
    Rotated d present (numLogs d present) s ↔
      (NoFailure s → supplied) ∧ NoneOverwritten d present (numLogs d present) s := by
  obtain ⟨k, hk⟩ := h.tried
  constructor
  · intro hr
    refine ⟨fun hf => (h.opened hf).1 (hr.opened hf), fun i hin hfail hm => ?_, fun hkeep _ hi hm => ?_⟩
    · have hi : present i = true := by
        by_contra hp
        have := (hk.missing i _ hfail).2 (by simpa using hp)
        cases this
      rcases hr.kept i hi with ⟨-, hlast⟩ | hkept
      · omega
      · rcases (h.kept_iff hi).1 hkept with hm' | hm'
        · rw [hfail] at hm'
          cases hm'
        · exact hm' hm
    · rcases hr.kept _ hi with ⟨hnot, -⟩ | hkept
      · exact hnot hkeep
      · rcases (h.kept_iff hi).1 hkept with hm' | hm'
        · rw [hk.todo _ (.inr (by omega))] at hm'
          cases hm'
        · exact hm' hm
  · rintro ⟨hsup, hover⟩
    refine ⟨fun hf i hin hi => h.moved hf (hsup hf) hin hi, fun hf => (h.opened hf).2 (hsup hf),
      fun i hi => ?_⟩
    by_cases hm : s.attempts i = some .moved
    · have hrange : k < i ∧ i < numLogs d present := by
        by_contra hout
        rw [hk.todo i (by omega)] at hm
        cases hm
      rcases Nat.lt_or_ge (i + 1) (numLogs d present) with hlt | hge
      · rcases hk.attempted hrange.1.le hlt hi with hm' | hfail
        · exact .inr ((h.kept_iff hi).2 (.inl hm'))
        · exact absurd hm (hover.failed i hlt hfail)
      · -- this is the oldest log
        have hlast : numLogs d present - 1 = i := by omega
        refine .inl ⟨fun hkeep => ?_, by omega⟩
        by_cases hroom : freeLog d present + 1 = 2 ^ 32
        · have := hover.oldest hkeep hroom
          rw [hlast] at this
          exact this hi hm
        · rcases oldest_of_keeping hkeep hroom with htwo | hfree
          · omega
          · rw [hlast, hi] at hfree
            cases hfree
    · exact .inr ((h.kept_iff hi).2 (.inr hm))

end Renames

/-- **When a rotation does what it should.**  It needs the stream, memory and a place for the new log
if all renames succeed; and no contents are lost, other than those of the oldest log if not all logs
are kept, exactly if no log takes the place of one whose rename has failed. -/
theorem rotates_iff (d : Daemon) (creates : Bool) (present : Nat → Bool)
    (hn : Keeping d ∨ 2 ≤ d.config.numLogs) :
    Rotated d present (numLogs d present) (after rotateLogsNow (start d creates present)) ↔
      (NoFailure (after rotateLogsNow (start d creates present)) → SuppliedNow d creates present) ∧
      NoneOverwritten d present (numLogs d present)
        (after rotateLogsNow (start d creates present)) :=
  (outcome_after hn).rotated_iff

/-- A full set of logs and one that exceeds it, all renames succeeding. -/
theorem full_set_rotated : 2 ≤ startedDaemon.config.numLogs ∧ Rotated startedDaemon (fun i => i < 6) 5
      (after rotateLogsNow (start startedDaemon false fun i => i < 6)) := by
  refine ⟨by decide, (rotates_iff startedDaemon false (fun i => i < 6)
    (.inr (by decide))).2 ⟨fun _ => ?_, fun i hi => ?_, nofun⟩⟩
  · exact ⟨rfl, rfl, rfl, by decide, rfl, .inl rfl⟩
  · have hfive : numLogs startedDaemon (fun i => decide (i < 6)) = 5 := rfl
    have hall : ∀ i < 4, (after rotateLogsNow (start startedDaemon false fun i => i < 6)).attempts
        (i + 1) ≠ some .failed := by decide +kernel
    intro hfail
    exact absurd hfail (hall i (by omega))

/-- A daemon with four logs.  The first rename, that of log 2 to log 3, fails. -/
def busyDaemon : Daemon :=
  { startedDaemon with
    config := { defaultConf with numLogs := 4 }
    calls := { goodCalls with rename := fun t => if t = 2 then some .ebusy else none } }

/-- **Log 1 takes the place of log 2**, whose contents are in no log any more. -/
theorem failed_rename_loses_log : ¬ Rotated busyDaemon (fun i => i < 4) 4
      (after rotateLogsNow (start busyDaemon false fun i => i < 4)) := by
  have h : Outcome (fun i => decide (i < 4)) (numLogs busyDaemon _) (SuppliedNow busyDaemon false _)
      (after rotateLogsNow (start busyDaemon false fun i => i < 4)) :=
    outcome_after (.inr (by decide))
  have hfailed : (after rotateLogsNow (start busyDaemon false fun i => i < 4)).attempts 3 =
      some .failed := by decide +kernel
  have hmoved : (after rotateLogsNow (start busyDaemon false fun i => i < 4)).attempts 2 =
      some .moved := by decide +kernel
  generalize after rotateLogsNow (start busyDaemon false fun i => i < 4) = s at *
  intro hr
  rcases hr.kept 2 rfl with ⟨-, hlast⟩ | hkept
  · cases hlast
  · rcases (h.kept_iff rfl).1 hkept with hm | hm
    · rw [hfailed] at hm
      cases hm
    · exact hm hmoved

end LibAudit.Auditd.Files
