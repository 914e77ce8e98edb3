import LibAudit.Spool.Open

/-!
# A process that dies in the middle of an operation

A queue file is changed in steps: `q_append` writes the entry before it writes the state, and a
`q_open` that resizes the queue writes a file of its own and renames it.  If the process dies between
two of them, the file should hold what it held before the operation or what it holds after it, and it
should say so when it is opened again.

The steps are the system calls of `Sys`, and a schedule `calls` may stop them anywhere, or let them
fail or transfer less than they were asked to.  Only the eight bytes of the state are written as a
whole (`FileOp.StateAtomic`).

There are two reasons for which `CrashSafe` fails.  A file of `2 ^ 32 - 1` entries cannot be opened
again.  And if the queue is kept in memory as well, `q_open` reads the entries of the file through an
array that has only the new number of entries.
-/

namespace LibAudit.Spool

open Ring Hoare List

/-! ## What is asked for -/

/-- The operations that change a queue file; `resize` is `q_open` on a file that exists. -/
inductive FileOp
  | append (data : CString)
  | dropHead
  | resize (qFlags : Flags) (numEntries : Nat)

/-- How a function ends, and the system then. -/
def ended {α : Type} : EStateM.Result Fault St α → Option Fault × Sys
  | .ok _ st => (none, st.sys)
  | .error e st => (some e, st.sys)

/-- Perform an operation on the queue `st`, which is not open in the last case. -/
def FileOp.perform (path : String) (es : Nat) : FileOp → St → Option Fault × Sys
  | .append data, st => ended (qAppend data st)
  | .dropHead, st => ended (qDropHead st)
  | .resize qFlags numEntries, st => ended (liftSys (qOpen qFlags path numEntries es) st)

/-- The capacity after the operation. -/
def FileOp.capacity (n : Nat) : FileOp → Nat
  | .resize _ numEntries => numEntries
  | _ => n

/-- The strings held after the operation. -/
def FileOp.result (n es : Nat) : FileOp → List CString → List CString
  | .append data, held => (Fifo.step n es (.append data) held).2
  | .dropHead, held => (Fifo.step n es .dropHead held).2
  | .resize _ _, held => held

/-- The next write takes eight bytes, or none. -/
def Sys.AtomicWrite (s : Sys) : Prop := ∀ k, s.calls s.tick = .done k → k = 0 ∨ 8 ≤ k

/-- The write of the state is atomic. -/
def FileOp.StateAtomic : FileOp → St → Prop
  | .append data, st => ∀ st', qAppendNoSyncFhState data st = .ok () st' → st'.sys.AtomicWrite
  | .dropHead, st => ∀ st', qDropHeadMemoryOnly st = .ok () st' → st'.sys.AtomicWrite
  | .resize _ _, _ => True

/-- The system with the schedule `c`. -/
def Sys.withCalls (s : Sys) (c : Nat → Outcome) : Sys := { s with calls := c }

/-- All calls succeed. -/
def Smooth (c : Nat → Outcome) : Prop := ∀ t, ∃ n, 0 < n ∧ c t = .done n

theorem Smooth.succeeds {c : Nat → Outcome} (h : Smooth c) {s : Sys} (hc : s.calls = c) :
    s.Succeeds := fun t _ => hc ▸ h t

/-- The flags of a queue that is only kept in a file, which exists. -/
def fileFlags : Flags := ⟨false, true, false, false, false, false⟩

/-- Opened again with capacity `m`, in a process whose calls succeed, the file at `path` gives a queue
that holds the strings of `held`. -/
def Yields (path : String) (m es : Nat) (s : Sys) (held : List CString) : Prop :=
  argsOk fileFlags m es = true ∧ ∀ c, Smooth c → ∀ qFlags : Flags, qFlags.inFile = true →
    (qFlags.creat && qFlags.excl) = false →
    ∃ q s', qOpen qFlags path m es (s.withCalls c) = .ok q s' ∧ Inv path m es ⟨s', q⟩ held

/-- Wherever the operation is stopped, the file holds what it held before or what it holds after. -/
def CrashSafe (path : String) (n es : Nat) (op : FileOp) (st : St) (held : List CString) : Prop :=
  ∀ c, op.StateAtomic { st with sys := st.sys.withCalls c } →
    (op.perform path es { st with sys := st.sys.withCalls c }).1 ≠ some .outOfBounds ∧
    (Yields path n es (op.perform path es { st with sys := st.sys.withCalls c }).2 held ∨
      Yields path (op.capacity n) es (op.perform path es { st with sys := st.sys.withCalls c }).2
        (op.result n es held))

/-! ## What a file holds -/

section File

variable {path : String} {n es fd head : Nat} {held : List CString} {s : Sys} {st : St}

/-- A queue that is only kept in the file. -/
def fileQueue (fd n es head len : Nat) : Queue :=
  ⟨fileFlags, some fd, none, n, es, head, len⟩

theorem FileHolds.inv (h : FileHolds path n es fd head held s) :
    Inv path n es ⟨s, fileQueue fd n es head held.length⟩ held :=
  show Inv path n es ⟨s, oldQueue fileFlags n es fd n head held.length⟩ held from inv_oldQueue h

theorem argsOk_of_fileFlags (h : argsOk fileFlags n es = true) {qFlags : Flags}
    (hfile : qFlags.inFile = true) : argsOk qFlags n es = true := by
  obtain ⟨-, hrest⟩ := argsOk_iff.mp h
  exact argsOk_iff.mpr ⟨by simp [hfile], hrest⟩

/-- **What a file holds is there when it is opened again**, unless it has too many entries. -/
theorem FileHolds.yields (hargs : argsOk fileFlags n es = true)
    (h : FileHolds path n es fd head held s) (hn : n + 1 < 2 ^ 32) : Yields path n es s held := by
  refine ⟨hargs, fun c hc qFlags hfile hexcl => ?_⟩
  have hs : (s.withCalls c).Succeeds := fun t _ => hc t
  have hcalls : FileHolds path n es fd head held (s.withCalls c) := h.congr rfl rfl
  obtain ⟨q, s', hopen, -, -, hinv⟩ := qOpen_reopen
    (argsOk_of_fileFlags hargs hfile) hn hfile hexcl hs hcalls
  exact ⟨q, s', hopen, hinv⟩

/-- A write to the slot at the tail does not show. -/
theorem FileHolds.write_free (hes : 32 ≤ es) (h : FileHolds path n es fd head held s)
    (hlt : held.length < n) {i : Nat} (hi : i = (head + held.length) % n) {buf : Bytes}
    (hbuf : buf.length ≤ es) :
    FileHolds path n es fd head held
      (s.setFile fd ((s.inodes fd).write buf ((i + 1) * es))) := by
  have hin : i < n := hi ▸ Nat.mod_lt _ (by omega)
  have hoff := le_slot es i
  refine ⟨h.named, ?_, ?_, h.head_lt, h.length_le⟩
  · rw [Sys.setFile_inodes_self]
    refine ⟨?_, ?_, fun k b hk => ?_⟩
    · rw [File.size_write_of_le, h.disk.size]
      rw [h.disk.size]
      exact slot_add_le hin hbuf
    · rw [File.slice_write_of_disjoint _ (.inl (by omega)), h.disk.header]
    · have hk' : k < held.length := (List.getElem?_eq_some_iff.mp hk).1
      refine (h.disk.stored k b hk).write_other ?_ hbuf
      rw [hi]
      exact slot_ne head (by omega) hlt (by omega)
  · rw [Sys.setFile_inodes_self, File.slice_write_of_disjoint _ (.inl (by omega)), h.state]

end File

/-! ## `q_append` and `q_drop_head` -/

section Ops

variable {path : String} {n es fd : Nat} {held : List CString} {st : St}

theorem call_atomic {s : Sys} (hat : s.AtomicWrite) :
    Triple (· = s) call (fun k s' => s.Later s' ∧ (k = 0 ∨ 8 ≤ k))
      (fun e s' => s.Later s' ∧ e ≠ .outOfBounds) := by
  rintro s rfl
  unfold call
  cases ho : s.calls s.tick with
  | done k => exact ⟨⟨s.tick + 1, Nat.le_succ _, rfl⟩, hat k ho⟩
  | fail e => exact ⟨⟨s.tick + 1, Nat.le_succ _, rfl⟩, (fun h => by cases h)⟩
  | killed => exact ⟨.refl s, (fun h => by cases h)⟩

theorem fullPwrite_atomic {s : Sys} (hat : s.AtomicWrite) (fd : Nat) {buf : Bytes}
    (hbuf : buf.length = 8) (off : Nat) :
    Triple (· = s) (fullPwrite fd buf off)
      (fun _ s' => (s.setFile fd ((s.inodes fd).write buf off)).Later s')
      (fun e s' => s.Later s' ∧ e ≠ .outOfBounds) := by
  have htake : buf.take ssizeMax = buf := take_of_length_le (by rw [hbuf]; decide)
  rw [fullPwrite, hbuf, fullPwriteLoop, if_neg (by rw [hbuf]; decide), htake]
  refine .bind (Q := fun k s' => (k = 0 ∧ s.Later s') ∨
    (k = 8 ∧ (s.setFile fd ((s.inodes fd).write buf off)).Later s')) ?_ fun k => ?_
  · refine (call_atomic hat).bind fun k => ?_
    rintro s₁ ⟨hl, hk⟩
    show (min k buf.length = 0 ∧ s.Later (s₁.setFile fd _)) ∨
      (min k buf.length = 8 ∧ (s.setFile fd _).Later (s₁.setFile fd _))
    rcases hk with rfl | hk
    · refine .inl ⟨Nat.zero_min _, ?_⟩
      rw [Nat.zero_min, take_zero, File.write_nil, Sys.setFile_self]
      exact hl
    · have hmin : min k buf.length = 8 := by omega
      refine .inr ⟨hmin, ?_⟩
      rw [hmin, take_of_length_le hbuf.le, hl.inodes]
      exact hl.setFile _ _
  · refine .ite (fun hzero => .throw _ ?_) fun hpos => ?_
    · simp_all
    · refine .assume (c := k = 8) (fun s' hs' => ?_) fun h8 => ?_
      · omega
      · rw [h8, drop_of_length_le hbuf.le, fullPwriteLoop, if_pos length_nil]
        refine .pure _ ?_
        simp

/-- **The state is the commit point**: before it is written the file holds what the header says, and
after that it holds what the queue holds. -/
theorem syncFhState_atomic {hd ln : Nat} {old : List CString} {head : Nat} (hsz : Sizes n es)
    (h : InvAt path n es hd ln st held) (hfd : st.q.fd = some fd) (hat : st.sys.AtomicWrite)
    (hold : FileHolds path n es fd head old st.sys) :
    Triple (· = st) syncFhState
      (fun _ st' => FileHolds path n es fd st.q.queueHead held st'.sys)
      (fun e st' => e ≠ .outOfBounds ∧ (FileHolds path n es fd head old st'.sys ∨
        FileHolds path n es fd st.q.queueHead held st'.sys)) := by
  refine .get_bind_eq ?_
  rw [hfd]
  refine .bind (((liftSys_spec (q := st.q) (fullPwrite_atomic hat fd (length_fhState _ _) _)).pre
    ?_).err ?_) fun _ => ?_
  · rintro st rfl
    exact ⟨rfl, rfl⟩
  · rintro e st₁ ⟨⟨hl, he⟩, -⟩
    exact ⟨he, .inl (hold.later hl)⟩
  have hnew := Inv.fileHolds (h.synced hsz hfd) hfd
  refine (qSync_spec (g := False) False.elim).weaken (fun _ st' hl => hnew.later hl.1) ?_
  rintro e st' ⟨hl, he, -⟩
  exact ⟨he, .inr (hnew.later hl.1)⟩

/-- Wherever `q_append` stops, the file holds what it held before, or the new string as well. -/
theorem qAppend_crash (hsz : Sizes n es) (h : Inv path n es st held) (hfd : st.q.fd = some fd)
    (data : CString) (hat : (FileOp.append data).StateAtomic st) :
    Triple (· = st) (qAppend data)
      (fun _ st' => FileHolds path n es fd st.q.queueHead
        ((FileOp.append data).result n es held) st'.sys)
      (fun e st' => e ≠ .outOfBounds ∧ (FileHolds path n es fd st.q.queueHead held st'.sys ∨
        FileHolds path n es fd st.q.queueHead ((FileOp.append data).result n es held) st'.sys)) := by
  have hold := h.fileHolds hfd
  by_cases hfull : held.length = n
  · rintro st rfl
    rw [qAppend_full h hfull]
    exact ⟨(fun h => by cases h), .inl hold⟩
  by_cases hlong : es < data.strlen + 1
  · rintro st rfl
    rw [qAppend_tooLong h hfull hlong]
    exact ⟨(fun h => by cases h), .inl hold⟩
  have hlt : held.length < n := lt_of_le_of_ne h.length_le hfull
  have hres : (FileOp.append data).result n es held = held ++ [data] := by
    simp only [FileOp.result, Fifo.step, if_neg hfull, if_neg hlong]
  have hpart : ∀ b : Bytes, b.length ≤ es → FileHolds path n es fd st.q.queueHead held
      (writtenPart st ((st.q.queueHead + held.length) % n) b) := by
    intro b hb
    rw [writtenPart, hfd]
    dsimp only
    rw [h.entrySize]
    exact hold.write_free hsz.header_le hlt rfl hb
  rw [hres]
  refine .bind ((qAppendNoSync_spec (g := False) False.elim hsz h hlt
    (not_lt.1 hlong) rfl).result.err ?_) fun _ => ?_
  · rintro e st₁ ⟨⟨buf, hbuf, hl⟩, he, -⟩
    exact ⟨he, .inl ((hpart buf hbuf).later hl)⟩
  rintro st₁ ⟨hok, hinv, hq, hl⟩
  have hold₁ := (hpart data.withNul (by rw [CString.length_withNul]; omega)).later hl
  have hsync := syncFhState_atomic hsz hinv (by rw [hq]; exact hfd) (hat st₁ hok) hold₁
  rw [hq] at hsync
  exact hsync st₁ rfl

/-- The same for `q_drop_head`, which only writes the state. -/
theorem qDropHead_crash (hsz : Sizes n es) (h : Inv path n es st held) (hfd : st.q.fd = some fd)
    (hat : FileOp.dropHead.StateAtomic st) :
    Triple (· = st) qDropHead
      (fun _ st' => ∃ head, FileHolds path n es fd head (FileOp.dropHead.result n es held) st'.sys)
      (fun e st' => e ≠ .outOfBounds ∧ ∃ head, FileHolds path n es fd head held st'.sys ∨
        FileHolds path n es fd head (FileOp.dropHead.result n es held) st'.sys) := by
  have hold := h.fileHolds hfd
  cases held with
  | nil =>
    rintro st rfl
    rw [qDropHead_empty h]
    exact ⟨(fun h => by cases h), _, .inl hold⟩
  | cons data held =>
    refine .bind ((InvAt.qDropHeadMemoryOnly h).result.err fun _ _ => False.elim) fun _ => ?_
    rintro st₁ ⟨hok, rfl⟩
    refine (syncFhState_atomic hsz (InvAt.dropHead h) hfd (hat _ hok) hold).weaken
      (fun _ _ hnew => ⟨_, hnew⟩) ?_ _ rfl
    rintro e st' ⟨he, hold | hnew⟩
    · exact ⟨he, _, .inl hold⟩
    · exact ⟨he, _, .inr hnew⟩

end Ops

end LibAudit.Spool
