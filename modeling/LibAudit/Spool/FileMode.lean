import LibAudit.Spool.Resize

/-!
# A queue file opened for another capacity

A queue that is only kept in a file can be given another capacity: `q_open` with `Q_RESIZE` copies the
strings to a new file and renames it.  `qOpen_fileMode` puts together what is known about this.

* For every schedule of the system calls, `q_open` returns a queue of the new capacity with the same
  strings, on a file at `path` that holds them as well, or it stops and the file is as it was.
* If the calls succeed it fails with `ENOSPC` if and only if there are more strings than the new
  capacity has room for.  This is so for the capacities that `q_open` accepts: zero is `EINVAL` even if
  there are strings (`qOpen_zero`).
-/

namespace LibAudit.Spool

open Ring Hoare

section FileMode

variable {path : String} {n es fd head m : Nat} {held : List CString} {s : Sys} {qFlags : Flags}
  {c : Nat → Outcome}

/-- The flags for file mode with `Q_RESIZE`. -/
structure FileMode (qFlags : Flags) : Prop where
  notMemory : qFlags.inMemory = false
  inFile : qFlags.inFile = true
  resize : qFlags.resize = true

/-- The queue of the new capacity, or the file as it was. -/
def SameStrings (path : String) (m es fd : Nat) (held : List CString) (s : Sys) :
    EStateM.Result Fault Sys Queue → Prop
  | .ok q s' => q.fd.isSome = true ∧ Inv path m es ⟨s', q⟩ held
  | .error e s' => e ≠ .outOfBounds ∧ s'.names path = some fd ∧ s'.inodes fd = s.inodes fd

/-- What is asked of the arguments and of the file, so that `ENOSPC` means that there is no space. -/
structure Accepted (qFlags : Flags) (n m es : Nat) (held : List CString) : Prop where
  opens : Opens qFlags m es
  lt : n + 1 < 2 ^ 32
  short : ∀ data ∈ held, data.strlen + 1 < 2 ^ 31

/-- All calls succeed, and `mkstemp` finds a name. -/
structure Succeeding (path : String) (s : Sys) (c : Nat → Outcome) : Prop where
  smooth : Smooth c
  room : ∀ t k, c t = .done k → s.names (path ++ toString k) = none

/-- A queue that is not kept in memory has no array to leave. -/
theorem moveEnd_file (n m : Nat) : ∀ (head : Nat) (held : List CString),
    moveEnd false n m head held ≠ .outside ∧
      ((∀ data ∈ held, data.strlen + 1 < 2 ^ 31) → moveEnd false n m head held = .done)
  | _, [] => ⟨(fun h => by cases h), fun _ => rfl⟩
  | head, data :: held => by
    obtain ⟨hne, hdone⟩ := moveEnd_file n m (next n head) held
    rw [moveEnd, if_neg (by simp)]
    by_cases hlong : 2 ^ 31 ≤ data.strlen + 1
    · rw [if_pos hlong]
      refine ⟨(fun h => by cases h), fun hshort => ?_⟩
      exact absurd (hshort data List.mem_cons_self) (not_lt.mpr hlong)
    · rw [if_neg hlong]
      exact ⟨hne, fun hshort => hdone fun d hd => hshort d (List.mem_cons_of_mem _ hd)⟩

/-- **The strings are kept**, whatever happens. -/
theorem qOpen_sameStrings (hargs : argsOk fileFlags n es = true) (hsound : s.Sound)
    (h : FileHolds path n es fd head held s) (hmode : FileMode qFlags) (c : Nat → Outcome) :
    SameStrings path m es fd held s (qOpen qFlags path m es (s.withCalls c)) := by
  have hspec : Triple (· = s.withCalls c) (qOpen qFlags path m es) _ _ :=
    qOpen_spec (g := False) False.elim rfl (hsound.fresh path fd h.named) False.elim
      (sizes_of_argsOk hargs) (argsOk_iff.mp hargs).2.2.2.2.2
      (show FileHolds path n es fd head held (s.withCalls c) from h.congr rfl rfl)
  have hrun := hspec _ rfl
  cases hopen : qOpen qFlags path m es (s.withCalls c) with
  | ok q s' =>
    rw [hopen] at hrun
    obtain ⟨hinv, hsome⟩ := hrun.2 hmode.inFile
    exact ⟨hsome, hinv⟩
  | error e s' =>
    rw [hopen] at hrun
    obtain ⟨hkeeps, hout, hends⟩ := hrun
    refine ⟨fun he => ?_, hkeeps.name, hkeeps.file⟩
    obtain ⟨hn, hr⟩ := hout he
    have houtside := (hends hn hr).1 he
    rw [hmode.notMemory] at houtside
    exact (moveEnd_file n m head held).1 houtside

/-- More strings than there is space for: `q_open` says so before it does anything. -/
theorem qOpen_noSpace (hargs : argsOk fileFlags n es = true)
    (h : FileHolds path n es fd head held s) (hmode : FileMode qFlags)
    (haccepted : Accepted qFlags n m es held) (hc : Smooth c) (hlt : m < held.length) :
    ∃ s', qOpen qFlags path m es (s.withCalls c) = .error (.errno .enospc) s' := by
  have hopen : Triple (· = s.withCalls c) (qOpenNoResize qFlags path m es) _ _ :=
    qOpenNoResize_old (fun _ : True => hc.succeeds rfl) (sizes_of_argsOk hargs)
      (argsOk_iff.mp hargs).2.2.2.2.2
      (show FileHolds path n es fd head held (s.withCalls c) from h.congr rfl rfl)
  obtain ⟨q, s₁, hok, -, hq⟩ := (hopen.err
    fun _ _ he => he.2.2 trivial ⟨haccepted.opens, haccepted.lt⟩).total rfl
  rcases hq with ⟨hfile, -⟩ | ⟨-, -, rfl⟩
  · rw [hmode.inFile] at hfile
    cases hfile
  have hne : (oldQueue qFlags m es fd n head held.length).numEntries ≠ m := by
    have := h.length_le
    show n ≠ m
    omega
  have hlong : (oldQueue qFlags m es fd n head held.length).queueLength > m := hlt
  refine ⟨s₁, ?_⟩
  rw [qOpen, bind_ok hok, if_neg hne, if_neg (by simp [oldQueue, initialQueue, hmode.resize]),
    if_pos hlong]
  rfl

/-- If there is space for the strings and the calls succeed, `q_open` returns. -/
theorem qOpen_space (hargs : argsOk fileFlags n es = true) (hsound : s.Sound)
    (h : FileHolds path n es fd head held s) (hmode : FileMode qFlags)
    (haccepted : Accepted qFlags n m es held) (hc : Succeeding path s c) (hle : held.length ≤ m) :
    ∃ q s', qOpen qFlags path m es (s.withCalls c) = .ok q s' := by
  have hholds : FileHolds path n es fd head held (s.withCalls c) := h.congr rfl rfl
  by_cases hne : n = m
  · subst hne
    obtain ⟨q, s', hok, -⟩ := qOpen_reopen haccepted.opens.args haccepted.lt hmode.inFile
      haccepted.opens.notExcl (fun t _ => hc.smooth t) hholds
    exact ⟨q, s', hok⟩
  · have hr : Resizes qFlags n m es held.length := ⟨haccepted.opens, hne, hmode.resize, hle⟩
    have hdone : moveEnd qFlags.inMemory n m head held = .done := by
      rw [hmode.notMemory]
      exact (moveEnd_file n m head held).2 haccepted.short
    have hspec : Triple (· = s.withCalls c) (qOpen qFlags path m es) _ _ :=
      qOpen_spec (g := True) (fun _ => hc.smooth) rfl (hsound.fresh path fd h.named)
        (fun _ => hc.room) (sizes_of_argsOk hargs) (argsOk_iff.mp hargs).2.2.2.2.2 hholds
    obtain ⟨q, s', hok, -⟩ := (hspec.err fun e s' he =>
      ((he.2.2 haccepted.lt hr).2 trivial).1 hdone).total rfl
    exact ⟨q, s', hok⟩

/-- **A queue file opened for another capacity.**  The strings are kept, and `ENOSPC` means that there
are too many of them. -/
theorem qOpen_fileMode (hargs : argsOk fileFlags n es = true) (hsound : s.Sound)
    (h : FileHolds path n es fd head held s) (hmode : FileMode qFlags) (m : Nat) :
    (∀ c, SameStrings path m es fd held s (qOpen qFlags path m es (s.withCalls c))) ∧
      (Accepted qFlags n m es held → ∀ c, Succeeding path s c →
        ((∃ s', qOpen qFlags path m es (s.withCalls c) = .error (.errno .enospc) s') ↔
          m < held.length)) := by
  refine ⟨qOpen_sameStrings hargs hsound h hmode, fun haccepted c hc => ⟨?_, fun hlt => ?_⟩⟩
  · rintro ⟨s', herror⟩
    by_contra hle
    obtain ⟨q, s'', hok⟩ := qOpen_space hargs hsound h hmode haccepted hc (not_lt.mp hle)
    cases herror.symm.trans hok
  · exact qOpen_noSpace hargs h hmode haccepted hc.smooth hlt

end FileMode

/-! ## Two capacities -/

/-- The flags of a queue that is only kept in a file and may be resized. -/
def resizeFlags : Flags := ⟨false, true, false, false, false, true⟩

/-- A queue file of four entries with one string, opened for two. -/
theorem qOpen_fileMode_two : (∀ c, SameStrings "spool" 2 32 0 [lastString] lastSlotSys
      (qOpen resizeFlags "spool" 2 32 (lastSlotSys.withCalls c))) ∧
    Accepted resizeFlags 4 2 32 [lastString] ∧ (∃ c, Succeeding "spool" lastSlotSys c) ∧
    (Accepted resizeFlags 4 2 32 [lastString] → ∀ c, Succeeding "spool" lastSlotSys c →
      ((∃ s', qOpen resizeFlags "spool" 2 32 (lastSlotSys.withCalls c) =
        .error (.errno .enospc) s') ↔ 2 < 1)) := by
  have hmain := qOpen_fileMode (n := 4) (by decide) lastSlotSys_sound (lastSlotQueue_inv.fileHolds rfl)
    (show FileMode resizeFlags from ⟨rfl, rfl, rfl⟩) 2
  refine ⟨hmain.1, ⟨⟨by decide, rfl, rfl⟩, by decide, ?_⟩, ⟨fun _ => .done 1, ?_, ?_⟩, hmain.2⟩
  · intro data hdata
    rw [List.mem_singleton.mp hdata]
    decide
  · exact fun _ => ⟨1, Nat.one_pos, rfl⟩
  · rintro t k ⟨⟩
    decide

/-- **Zero is no capacity**: `q_open` fails with `EINVAL`, and not with `ENOSPC`, though there is a
string and no call fails. -/
theorem qOpen_zero : FileHolds "spool" 4 32 0 3 [lastString] lastSlotSys ∧ lastSlotSys.Succeeds ∧
    0 < [lastString].length ∧
    ∃ s', qOpen resizeFlags "spool" 0 32 lastSlotSys = .error (.errno .einval) s' :=
  ⟨lastSlotQueue_inv.fileHolds rfl, fun _ _ => ⟨2 ^ 63, by decide, rfl⟩, by decide, _, rfl⟩

end LibAudit.Spool
