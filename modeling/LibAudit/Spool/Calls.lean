import LibAudit.Lib.Hoare
import LibAudit.Spool.Queue

/-!
# System calls under any schedule

A schedule may stop a function at any of its calls, or let a call fail or transfer less than it was
asked to.  The specifications of this file hold for every schedule: they say what is there if a function
returns, and what is there if it stops.  They name the system that is left behind up to the number of
calls (`Sys.Later`), so that they can be put together.

They also say, with a property `g` under which all calls succeed, that a function does not stop if `g`.
With `g` false nothing is known about the calls; with `g` true the specification is one of a function
that returns.  `fullPwrite_spec` and `fullPread_spec` then say that how the kernel cuts a transfer into
parts does not matter.
-/

namespace LibAudit.Spool

open Hoare List

/-! ## On the system -/

section Calls

variable {g : Prop} {s : Sys}

/-- A function has stopped, which it does not do if `g`. -/
def Stopped (g : Prop) (e : Fault) : Prop := e ≠ .outOfBounds ∧ ¬ g

/-- A function has stopped, which it does not do if `g` and `p`. -/
def StoppedUnless (g p : Prop) (e : Fault) : Prop := e ≠ .outOfBounds ∧ (g → ¬ p)

theorem Stopped.unless {e : Fault} (h : Stopped g e) (p : Prop) : StoppedUnless g p e :=
  ⟨h.1, fun hg => absurd hg h.2⟩

theorem Sys.Later.start {α : Type} {m : SysM α} {Q : α → Sys → Prop} {E : Fault → Sys → Prop}
    (h : Triple s.Later m Q E) : Triple (· = s) m Q E :=
  h.pre fun _ hs => hs ▸ Sys.Later.refl _

/-- One call changes nothing but the number of calls. -/
theorem call_spec (hg : g → s.Succeeds) : Triple s.Later call (fun n s' => s.Later s' ∧ (g → 0 < n))
      (fun e s' => s.Later s' ∧ Stopped g e) := by
  intro s' hl
  have hdone : g → ∃ n, 0 < n ∧ s'.calls s'.tick = .done n := fun h => hl.succeeds (hg h) s'.tick le_rfl
  have hnext : s.Later { s' with tick := s'.tick + 1 } := hl.trans ⟨_, Nat.le_succ _, rfl⟩
  unfold call
  cases ho : s'.calls s'.tick with
  | done n =>
    simp_all
  | fail e =>
    refine ⟨hnext, (fun h => by cases h), fun h => ?_⟩
    obtain ⟨m, -, heq⟩ := hdone h
    cases ho.symm.trans heq
  | killed =>
    refine ⟨hl, (fun h => by cases h), fun h => ?_⟩
    obtain ⟨m, -, heq⟩ := hdone h
    cases ho.symm.trans heq

theorem discardCall_spec (hg : g → s.Succeeds) :
    Triple s.Later (discard call : SysM Unit) (fun _ => s.Later)
      (fun e s' => s.Later s' ∧ Stopped g e) :=
  ((call_spec hg).post fun _ _ h => h.1).discard

theorem callIgnored_spec (hg : g → s.Succeeds) :
    Triple s.Later callIgnored (fun _ => s.Later) (fun e s' => s.Later s' ∧ Stopped g e) := by
  intro s' hl
  have := call_spec hg s' hl
  unfold callIgnored
  grind

theorem tryLock_spec (hg : g → s.Succeeds) :
    Triple s.Later tryLock (fun _ => s.Later) (fun e s' => s.Later s' ∧ Stopped g e) := by
  refine .discard fun s' hl => ?_
  have := call_spec hg s' hl
  unfold mapErrno
  cases hcall : call s' with
  | ok k s₁ =>
    rw [hcall] at this
    exact this.1
  | error e s₁ =>
    rw [hcall] at this
    obtain ⟨hl', hne, hnot⟩ := this
    cases e with
    | errno e => exact ⟨hl', (fun h => by cases h), hnot⟩
    | killed => exact ⟨hl', hne, hnot⟩
    | outOfBounds => exact ⟨hl', hne, hnot⟩

theorem pwrite_spec (hg : g → s.Succeeds) (fd : Nat) (buf : Bytes) (off : Nat) :
    Triple s.Later (pwrite fd buf off)
      (fun k s' => (s.setFile fd ((s.inodes fd).write (buf.take k) off)).Later s' ∧
        k ≤ buf.length ∧ (g → buf ≠ [] → 0 < k))
      (fun e s' => s.Later s' ∧ Stopped g e) := by
  refine (call_spec hg).bind fun n => ?_
  rintro s₁ ⟨hl, hn⟩
  show (s.setFile fd _).Later (s₁.setFile fd _) ∧ _
  rw [hl.inodes]
  refine ⟨hl.setFile _ _, Nat.min_le_right _ _, fun h hne => ?_⟩
  have := hn h
  have := length_pos_iff.mpr hne
  omega

theorem later_write_nil (fd off : Nat) :
    (s.setFile fd ((s.inodes fd).write [] off)).Later = s.Later := by
  rw [File.write_nil, Sys.setFile_self]

theorem fullPwriteLoop_spec (fd : Nat) : ∀ (fuel : Nat) (s : Sys) (buf : Bytes) (off : Nat),
    (g → s.Succeeds) → buf.length ≤ fuel → Triple s.Later (fullPwriteLoop fd fuel buf off)
      (fun _ => (s.setFile fd ((s.inodes fd).write buf off)).Later)
      (fun e s' => (∃ k, (s.setFile fd ((s.inodes fd).write (buf.take k) off)).Later s') ∧
        Stopped g e)
  | 0, s, buf, off, _, hf => by
    obtain rfl : buf = [] := length_eq_zero_iff.mp (by omega)
    rw [later_write_nil]
    exact .pure _ fun _ => id
  | fuel + 1, s, buf, off, hg, hf => by
    rw [fullPwriteLoop]
    refine .ite (fun h0 => ?_) fun h0 => ?_
    · obtain rfl : buf = [] := length_eq_zero_iff.mp h0
      rw [later_write_nil]
      exact .pure _ fun _ => id
    have hne : buf.take ssizeMax ≠ [] := by
      rw [Ne, take_eq_nil_iff]
      rintro (h | rfl)
      · exact absurd h (by decide)
      · exact h0 rfl
    refine .bind ((pwrite_spec hg fd _ off).err ?_) fun k => .assume (fun _ hs => hs.2) fun hk => ?_
    · rintro e s' ⟨hl, he⟩
      refine ⟨⟨0, ?_⟩, he⟩
      rw [take_zero, later_write_nil]
      exact hl
    have htake : (buf.take ssizeMax).take k = buf.take k := by
      rw [take_take, Nat.min_eq_left (hk.1.trans (by simp))]
    have hkb : k ≤ buf.length := hk.1.trans (by simp)
    rw [htake]
    refine .ite (fun hzero => .throw _ fun s' hs => ?_) fun _ => ?_
    · subst hzero
      exact ⟨⟨0, hs.1⟩, (fun h => by cases h), fun h => absurd (hk.2 h hne) (lt_irrefl 0)⟩
    -- what the rest of the loop writes continues what has been written
    have hfile : ∀ b : Bytes, ((s.setFile fd ((s.inodes fd).write (buf.take k) off)).setFile fd
        (((s.setFile fd ((s.inodes fd).write (buf.take k) off)).inodes fd).write b (off + k))) =
        s.setFile fd ((s.inodes fd).write (buf.take k ++ b) off) := by
      intro b
      have hw := (s.inodes fd).write_write (buf.take k) b off
      rw [length_take, Nat.min_eq_left hkb] at hw
      rw [Sys.setFile_inodes_self, hw, Sys.setFile_setFile]
    have hrec := fullPwriteLoop_spec fd fuel
      (s.setFile fd ((s.inodes fd).write (buf.take k) off)) (buf.drop k) (off + k)
      (fun h => (hg h).setFile _ _) (by simp; omega)
    simp only [hfile, take_append_drop, ← take_add] at hrec
    refine hrec.conseq (fun _ hs => hs.1) (fun _ _ => id) ?_
    rintro e s' ⟨⟨j, hj⟩, he⟩
    exact ⟨⟨k + j, hj⟩, he⟩

/-- **A write that stops has written a part of it**, from the beginning. -/
theorem fullPwrite_spec (hg : g → s.Succeeds) (fd : Nat) (buf : Bytes) (off : Nat) :
    Triple s.Later (fullPwrite fd buf off)
      (fun _ => (s.setFile fd ((s.inodes fd).write buf off)).Later)
      (fun e s' => (∃ k, (s.setFile fd ((s.inodes fd).write (buf.take k) off)).Later s') ∧
        Stopped g e) :=
  fullPwriteLoop_spec fd buf.length s buf off hg le_rfl

theorem pread_spec (hg : g → s.Succeeds) (fd count off : Nat) : Triple s.Later (pread fd count off)
      (fun b s' => s.Later s' ∧ ∃ k, b = (s.inodes fd).slice off k ∧
        k ≤ min count ((s.inodes fd).size - off) ∧ (g → k = 0 → count = 0 ∨ (s.inodes fd).size ≤ off))
      (fun e s' => s.Later s' ∧ Stopped g e) := by
  refine (call_spec hg).bind fun n => ?_
  rintro s₁ ⟨hl, hn⟩
  show s.Later s₁ ∧ ∃ k, (s₁.inodes fd).slice off _ = _ ∧ _
  rw [hl.inodes]
  refine ⟨hl, _, rfl, Nat.min_le_right _ _, fun h h0 => ?_⟩
  have := hn h
  omega

theorem fullPreadLoop_spec (hg : g → s.Succeeds) (fd : Nat) : ∀ (fuel size off : Nat) (buf : Bytes),
    size ≤ fuel → Triple s.Later (fullPreadLoop fd fuel size off buf)
      (fun b s' => s.Later s' ∧ (size = 0 ∨ off + size ≤ (s.inodes fd).size) ∧
        b = buf ++ (s.inodes fd).slice off size)
      (fun e s' => s.Later s' ∧ StoppedUnless g (off + size ≤ (s.inodes fd).size) e)
  | 0, size, off, buf, hf => by
    obtain rfl : size = 0 := by omega
    exact .pure _ fun s' hl => ⟨hl, .inl rfl, by simp [File.slice]⟩
  | fuel + 1, size, off, buf, hf => by
    rw [fullPreadLoop]
    refine .ite (fun h0 => .pure _ fun s' hl => ?_) fun h0 => ?_
    · subst h0
      exact ⟨hl, .inl rfl, by simp [File.slice]⟩
    refine .bind ((pread_spec hg fd (min size ssizeMax) off).err
      fun _ _ he => ⟨he.1, he.2.unless _⟩) fun res => .assume (fun _ hs => hs.2) ?_
    rintro ⟨k, rfl, hk, hzero⟩
    have hmax : 0 < min size ssizeMax := by simp [ssizeMax]; omega
    rw [File.length_slice]
    refine .ite (fun h => .throw _ fun s' hs => ?_) fun hne => ?_
    · refine ⟨hs.1, (fun h => by cases h), fun hgo hle => ?_⟩
      have := hzero hgo h
      omega
    refine (fullPreadLoop_spec hg fd fuel (size - k) (off + k) _ (by omega)).conseq
      (fun _ hs => hs.1) ?_ ?_
    · rintro b s' ⟨hl, hin, rfl⟩
      refine ⟨hl, .inr (by omega), ?_⟩
      rw [append_assoc, ← File.slice_append, Nat.add_sub_cancel' (by omega)]
    · simp_all

/-- **A read inside the file reads what is there**, if it does not stop. -/
theorem fullPread_spec (hg : g → s.Succeeds) (fd size off : Nat)
    (hsize : off + size ≤ (s.inodes fd).size) :
    Triple s.Later (fullPread fd size off)
      (fun b s' => s.Later s' ∧ b = (s.inodes fd).slice off size)
      (fun e s' => s.Later s' ∧ Stopped g e) :=
  (fullPreadLoop_spec hg fd size size off [] le_rfl).weaken (fun _ _ hs => ⟨hs.1, hs.2.2⟩)
    fun _ _ he => ⟨he.1, he.2.1, fun hgo => he.2.2 hgo hsize⟩

end Calls

/-! ## On the queue -/

section Queues

variable {g : Prop} {st : St}

/-- `st'` is `st` some calls later, with nothing else changed. -/
def St.Later (st st' : St) : Prop := st.sys.Later st'.sys ∧ st'.q = st.q

theorem St.Later.refl (st : St) : st.Later st := ⟨.refl _, rfl⟩

theorem St.Later.start {α : Type} {m : QM α} {Q : α → St → Prop} {E : Fault → St → Prop}
    (h : Triple st.Later m Q E) : Triple (· = st) m Q E :=
  h.pre fun _ hst => hst ▸ St.Later.refl _

theorem liftSys_spec {α : Type} {q : Queue} {m : SysM α} {P : Sys → Prop} {Q : α → Sys → Prop}
    {E : Fault → Sys → Prop} (h : Triple P m Q E) :
    Triple (fun st => P st.sys ∧ st.q = q) (liftSys m) (fun a st' => Q a st'.sys ∧ st'.q = q)
      (fun e st' => E e st'.sys ∧ st'.q = q) := by
  rintro st ⟨hP, hq⟩
  have := h st.sys hP
  unfold liftSys
  grind

theorem liftCall_spec (hg : g → st.sys.Succeeds) :
    Triple st.Later (liftSys (discard call)) (fun _ => st.Later)
      (fun e st' => st.Later st' ∧ Stopped g e) :=
  (liftSys_spec (discardCall_spec hg)).err fun _ _ he => ⟨⟨he.1.1, he.2⟩, he.1.2⟩

theorem qSync_spec (hg : g → st.sys.Succeeds) :
    Triple st.Later qSync (fun _ => st.Later) (fun e st' => st.Later st' ∧ Stopped g e) :=
  .read fun _ _ => .ite (fun _ => liftCall_spec hg) fun _ => .pure _ fun _ => id

/-- The file with the state of the queue in its header. -/
def Queue.syncedFile (q : Queue) (f : File) : File :=
  f.write (fhState q.queueHead q.queueLength) offsetofFhState

theorem syncFhState_spec (hg : g → st.sys.Succeeds) {fd : Nat} (hfd : st.q.fd = some fd) :
    Triple st.Later syncFhState
      (fun _ st' => (st.sys.setFile fd (st.q.syncedFile (st.sys.inodes fd))).Later st'.sys ∧
        st'.q = st.q)
      (fun e st' => ((∃ f, (st.sys.setFile fd f).Later st'.sys) ∧ Stopped g e) ∧ st'.q = st.q) := by
  refine .read fun st₁ hl => ?_
  rw [hl.2, hfd]
  refine .bind ((liftSys_spec (fullPwrite_spec hg fd _ _)).err ?_) fun _ => ?_
  · rintro e st' ⟨⟨⟨k, hl⟩, he⟩, hq⟩
    exact ⟨⟨⟨_, hl⟩, he⟩, hq⟩
  · have hg' : g → (⟨st.sys.setFile fd (st.q.syncedFile (st.sys.inodes fd)), st.q⟩ : St).sys.Succeeds :=
      hg
    refine (qSync_spec hg').err ?_
    rintro e st' ⟨⟨hl, hq⟩, he⟩
    exact ⟨⟨⟨_, hl⟩, he⟩, hq⟩

/-- Whatever happens, writing the state does not change the queue. -/
theorem syncFhState_frame :
    Triple (· = st) syncFhState (fun _ st' => st'.q = st.q) (fun _ st' => st'.q = st.q) := by
  cases hfd : st.q.fd with
  | none =>
    refine .get_bind_eq ?_
    rw [hfd]
    exact .pure _ fun _ h => by rw [h]
  | some fd =>
    exact (syncFhState_spec (g := False) False.elim hfd).conseq (fun _ h => h ▸ St.Later.refl _)
      (fun _ _ h => h.2) fun _ _ h => h.2

/-- The system once some of the bytes for slot `i` are written, if the queue has a file. -/
def writtenPart (st : St) (i : Nat) (b : Bytes) : Sys :=
  match st.q.fd with
  | some fd => st.sys.setFile fd ((st.sys.inodes fd).write b ((i + 1) * st.q.entrySize))
  | none => st.sys

theorem writtenPart_nil (st : St) (i : Nat) : writtenPart st i [] = st.sys := by
  unfold writtenPart
  split
  · rw [File.write_nil, Sys.setFile_self]
  · rfl

theorem writtenPart_calls (st : St) (i : Nat) (b : Bytes) :
    (writtenPart st i b).calls = st.sys.calls := by
  unfold writtenPart
  split <;> rfl

theorem writtenPart_succeeds (h : st.sys.Succeeds) (i : Nat) (b : Bytes) :
    (writtenPart st i b).Succeeds := by
  unfold writtenPart
  split
  · exact h
  · exact h

theorem copyForMemory_spec (hg : g → st.sys.Succeeds) (i : Nat) :
    Triple st.Later (copyForMemory i) (fun _ => st.Later) (fun e st' => st.Later st' ∧
      (Stopped g e ∨ e = .outOfBounds ∧ st.q.Beyond i ∨
        e = .errno .eio ∧ ∃ mem, st.q.memory = some mem ∧ mem.entry i ≠ none)) := by
  refine .read fun st₁ hl => ?_
  rw [hl.2]
  cases hm : st.q.memory with
  | none => exact .pure _ fun _ => id
  | some mem =>
    refine .ite (fun hle => .throw _ fun _ hs => ⟨hs, .inr (.inl ⟨rfl, mem, hm, hle⟩)⟩)
      fun _ => .ite (fun hsome => .throw _ fun _ hs => ⟨hs, .inr (.inr ⟨rfl, mem, rfl, ?_⟩)⟩)
      fun _ => (liftCall_spec hg).err fun _ _ he => ⟨he.1, .inl he.2⟩
    rintro hnone
    simp [hnone] at hsome

theorem writeEntry_spec (hg : g → st.sys.Succeeds) (i : Nat) (data : CString) :
    Triple st.Later (writeEntry i data)
      (fun _ st' => (writtenPart st i data.withNul).Later st'.sys ∧ st'.q = st.q)
      (fun e st' => ((∃ k, (writtenPart st i (data.withNul.take k)).Later st'.sys) ∧ Stopped g e) ∧
        st'.q = st.q) := by
  refine .read fun st₁ hl => ?_
  rw [hl.2]
  unfold writtenPart
  cases hfd : st.q.fd with
  | none => exact .pure _ fun _ => id
  | some fd => exact liftSys_spec (fullPwrite_spec hg fd _ _)

/-- The queue with one more string, which is in entry `i`. -/
def Queue.appended (q : Queue) (i : Nat) (data : CString) : Queue :=
  { q with
    memory := q.memory.map fun mem => mem.put i (some data.withNul)
    queueLength := q.queueLength + 1 }

/-- Why `q_append` has stopped before it has written the state. -/
structure AppendStops (g : Prop) (q : Queue) (i : Nat) (data : CString) (e : Fault) : Prop where
  beyond : e = .outOfBounds → q.Beyond i
  killed : e = .killed → ¬ g
  room : g → q.queueLength ≠ q.numEntries → data.strlen + 1 ≤ q.entrySize →
    ∃ mem, q.memory = some mem ∧ (mem.allocated ≤ i ∨ mem.entry i ≠ none)

theorem Stopped.append {q : Queue} {i : Nat} {data : CString} {e : Fault} (h : Stopped g e) :
    AppendStops g q i data e :=
  ⟨fun he => absurd he h.1, fun _ => h.2, fun hg => absurd hg h.2⟩

/-- `q_append` up to the state: the entry is written, or a part of it if there is room for it. -/
theorem qAppendNoSyncFhState_spec (hg : g → st.sys.Succeeds) (data : CString) {i : Nat}
    (hi : i = (st.q.queueHead + st.q.queueLength) % st.q.numEntries) :
    Triple (· = st) (qAppendNoSyncFhState data)
      (fun _ st' => (writtenPart st i data.withNul).Later st'.sys ∧ st'.q = st.q.appended i data)
      (fun e st' => ((∃ buf, (writtenPart st i buf).Later st'.sys ∧ (buf = [] ∨
        st.q.queueLength ≠ st.q.numEntries ∧ buf.length ≤ data.strlen + 1 ∧
          data.strlen + 1 ≤ st.q.entrySize)) ∧ st'.q = st.q) ∧ AppendStops g st.q i data e) := by
  have hnone : ∀ st' : St, st.Later st' → (∃ buf, (writtenPart st i buf).Later st'.sys ∧ (buf = [] ∨
      st.q.queueLength ≠ st.q.numEntries ∧ buf.length ≤ data.strlen + 1 ∧
        data.strlen + 1 ≤ st.q.entrySize)) ∧ st'.q = st.q := fun st' hl =>
    ⟨⟨[], by rw [writtenPart_nil]; exact hl.1, .inl rfl⟩, hl.2⟩
  refine .get_bind_eq ?_
  dsimp only
  rw [← hi]
  refine St.Later.start (.ite (fun hfull => .throw _ fun st' hl => ⟨hnone st' hl,
    (fun h => by cases h), (fun h => by cases h), fun _ hlt => absurd hfull hlt⟩) fun hlt => .ite
    (fun hlong => .throw _ fun st' hl => ⟨hnone st' hl, (fun h => by cases h), (fun h => by cases h),
    fun _ _ hfit => absurd hlong (not_lt.2 hfit)⟩) fun hfit => ?_)
  refine .bind ((copyForMemory_spec hg i).err ?_) fun _ =>
    .bind ((writeEntry_spec hg i data).err ?_) fun _ => .modify fun st' hs =>
      ⟨hs.1, by rw [hs.2]; rfl⟩
  · rintro e st' ⟨hl, he | ⟨rfl, hbeyond⟩ | ⟨rfl, mem, hmem, hsome⟩⟩
    · exact ⟨hnone st' hl, he.append⟩
    · obtain ⟨mem, hmem, hle⟩ := id hbeyond
      exact ⟨hnone st' hl, fun _ => hbeyond, (fun h => by cases h), fun _ _ _ => ⟨mem, hmem, .inl hle⟩⟩
    · exact ⟨hnone st' hl, (fun h => by cases h), (fun h => by cases h),
        fun _ _ _ => ⟨mem, hmem, .inr hsome⟩⟩
  · rintro e st' ⟨⟨⟨k, hk⟩, he⟩, hq⟩
    refine ⟨⟨⟨_, hk, .inr ⟨hlt, ?_, not_lt.1 hfit⟩⟩, hq⟩, he.append⟩
    simp

/-- The queue without its first string. -/
def Queue.dropped (q : Queue) : Queue :=
  { q with
    memory := q.memory.map fun mem => mem.put q.queueHead none
    queueHead := if q.queueHead + 1 = q.numEntries then 0 else q.queueHead + 1
    queueLength := q.queueLength - 1 }

/-- `q_drop_head` up to the state. -/
theorem qDropHeadMemoryOnly_spec : Triple (· = st) qDropHeadMemoryOnly
      (fun _ st' => st' = { st with q := st.q.dropped } ∧ st.q.queueLength ≠ 0)
      (fun e st' => st' = st ∧ (e = .outOfBounds → st.q.Beyond st.q.queueHead) ∧ e ≠ .killed ∧
        (st.q.queueLength = 0 ∨ st.q.Beyond st.q.queueHead)) := by
  refine .get_bind_eq ?_
  refine .ite (fun h0 => .throw _ fun _ hs => ⟨hs, (fun h => by cases h), (fun h => by cases h),
    .inl h0⟩) fun h0 => .ite (fun hb => .throw _ fun _ hs => ⟨hs, fun _ => hb,
    (fun h => by cases h), .inr hb⟩) fun _ => .modify ?_
  rintro st rfl
  exact ⟨rfl, h0⟩

/-- The queue with its head in the array. -/
def remembered (q : Queue) (data : CString) : Queue :=
  { q with memory := q.memory.map fun mem => mem.put q.queueHead (some data.withNul) }

theorem rememberHead_spec (hg : g → st.sys.Succeeds) (data : CString) :
    Triple st.Later (rememberHead data.withNul)
      (fun _ st' => st.sys.Later st'.sys ∧ (st'.q = st.q ∨ st'.q = remembered st.q data))
      (fun e st' => st.sys.Later st'.sys ∧ Stopped g e) := by
  refine .read fun st₁ hl => ?_
  cases st₁.q.memory with
  | none => exact .pure _ fun _ hs => ⟨hs.1, .inl hs.2⟩
  | some mem =>
    refine .bind ((liftSys_spec (callIgnored_spec hg)).err fun _ _ he => he.1) fun copied =>
      .ite (fun _ => .modify fun st' hs => ⟨hs.1, .inr ?_⟩) fun _ =>
      .pure _ fun _ hs => ⟨hs.1, .inl hs.2⟩
    rw [hs.2]
    rfl

theorem qPeekFile_spec (hg : g → st.sys.Succeeds) {fd : Nat} (data : CString) (stale : Bytes)
    (hin : entryOffset st.q st.q.queueHead + st.q.entrySize ≤ (st.sys.inodes fd).size)
    (hslice : (st.sys.inodes fd).slice (entryOffset st.q st.q.queueHead) st.q.entrySize =
      data.withNul ++ stale) :
    Triple (· = st) (qPeekFile fd)
      (fun b st' => (st.sys.Later st'.sys ∧ (st'.q = st.q ∨ st'.q = remembered st.q data)) ∧
        b = data.withNul)
      (fun e st' => st.sys.Later st'.sys ∧ Stopped g e) := by
  have hread := fullPread_spec hg fd _ _ hin
  rw [hslice] at hread
  refine .get_bind_eq (St.Later.start ?_)
  refine .bind ((liftSys_spec hread).err fun _ _ he => he.1) fun b => .assume (fun _ hs => hs.1.2) ?_
  rintro rfl
  rw [if_neg (by simp [CString.withNul]), cstr_withNul_append]
  exact .bind ((rememberHead_spec hg data).pre fun _ hs => ⟨hs.1.1, hs.2⟩) fun _ =>
    .pure _ fun _ hs => ⟨hs, rfl⟩

end Queues

end LibAudit.Spool
