import LibAudit.Spool.Resize

/-!
# The array in memory

`q_open_no_resize` allocates the array `memory` with the number of entries that it is asked for, and
then `q_open_file` sets `num_entries` to the number of entries in the file.  Everything that follows
takes `num_entries` for the length of the array: appending, peeking and dropping, and most of all
`q_close`, which frees the entries one by one.

This file has `q_close`, and `q_open` with the calls of `q_close` on its way out.  `session` opens a
queue, uses it and closes it.  An index behind the array is `Fault.outOfBounds`.

* `session_inBounds`: there is none if the array is long enough for the queue that
  `q_open_no_resize` returns, whatever is at `path` and however the system calls come out.
* `inBounds_iff`: on a queue file it is not long enough if the file has more entries than are asked for.
  There is no way out then: `q_open` closes the queue whether it can resize it or not.
-/

namespace LibAudit.Spool

open Word Ring Hoare

/-! ## Closing a queue -/

/-- The loop of `q_close`: free the first `n` entries of the array. -/
def freeEntries (mem : Memory) : Nat → SysM Unit
  | 0 => pure ()
  | i + 1 => do
    freeEntries mem i
    if mem.allocated ≤ i then throw .outOfBounds else pure ()

/-- Close Q.  Nobody looks at what `close` returns. -/
def qClose (q : Queue) : SysM Unit := do
  (if q.fd.isSome then discard callIgnored else pure ())
  match q.memory with
  | some mem => freeEntries mem q.numEntries
  | none => pure ()

/-- The part of `q_open` that puts a file of another size in the place of that of `q`.  As in `qOpen`,
but the queue on the new file is closed if it fails; the copying loop changes nothing that `q_close`
looks at. -/
def qReplace (qFlags : Flags) (path : String) (numEntries entrySize : Nat) (q : Queue) : SysM Queue :=
  if !q.flags.resize then failWith .einval
  else if q.queueLength > numEntries then failWith .enospc
  else do
    discard call
    discard call
    let tmpPath ← mkstemp path
    onFailure (do
      discard call
      discard call
      modify fun s => { s with names := fun p => if p = tmpPath then none else s.names p }
      let q2 ← qOpenNoResize { qFlags with creat := true, excl := true } tmpPath numEntries entrySize
      onFailure (do
        if q2.numEntries ≠ numEntries then failWith .eio
        else do
          let q2 ← qMoveAll entrySize (q.queueLength + 1) q q2
          let r ← onQueue q2 syncFhState
          discard call
          modify fun s => { s with
            names := fun p => if p = path then s.names tmpPath
              else if p = tmpPath then none else s.names p }
          pure r.2) (qClose q2)) (unlink tmpPath)

/-- What `q_open` does with the queue that `q_open_no_resize` returns: if it has another number of
entries than is asked for it is closed, whether or not there is one to put in its place. -/
def qResize (qFlags : Flags) (path : String) (numEntries entrySize : Nat) (q : Queue) : SysM Queue :=
  if q.numEntries = numEntries then pure q
  else do
    let q2 ← onFailure (qReplace qFlags path numEntries entrySize q) (qClose q)
    qClose q
    pure q2

/-- What the owner of a queue does with it. -/
inductive Use
  | append (data : CString)
  | peek (size : Nat)
  | dropHead

/-- A call whose failure is taken note of. -/
def attempt {α : Type} (m : QM α) : QM Unit := fun st =>
  match m st with
  | .ok _ st' => .ok () st'
  | .error (.errno _) st' => .ok () st'
  | .error e st' => .error e st'

def Use.perform : Use → QM Unit
  | .append data => attempt (qAppend data)
  | .peek size => attempt (qPeek size)
  | .dropHead => attempt qDropHead

/-- Open a queue, use it, and close it. -/
def session (qFlags : Flags) (path : String) (numEntries entrySize : Nat) (uses : List Use) :
    SysM Unit := do
  let q ← qOpenNoResize qFlags path numEntries entrySize
  let q ← qResize qFlags path numEntries entrySize q
  let r ← onQueue q (uses.forM Use.perform)
  qClose r.2

/-- The array is never used beyond its end, whatever is done with the queue and however the system calls
come out. -/
def InBounds (qFlags : Flags) (path : String) (numEntries entrySize : Nat) (s : Sys) : Prop :=
  ∀ c uses s', session qFlags path numEntries entrySize uses (s.withCalls c) ≠ .error .outOfBounds s'

/-! ## Computations that keep to the array -/

section Bounded

variable {b : Prop} {c : Nat → Outcome} {α β : Type}

/-- The ways a computation may stop: with an index behind the array unless `b`, and by the death of the
process unless all calls succeed. -/
def Fails (b : Prop) (c : Nat → Outcome) (e : Fault) : Prop :=
  (e = .outOfBounds → ¬ b) ∧ (e = .killed → ¬ Smooth c)

theorem Stopped.fails {e : Fault} (h : Stopped (Smooth c) e) : Fails b c e :=
  ⟨fun he => absurd he h.1, fun _ => h.2⟩

theorem fails_errno (e : Errno) : Fails b c (.errno e) := ⟨(fun h => by cases h), fun h => by cases h⟩

/-- A computation on the system whose value satisfies `Q`. -/
def Bounded (b : Prop) (c : Nat → Outcome) (m : SysM α) (Q : α → Prop) : Prop :=
  Triple (·.calls = c) m (fun a s => s.calls = c ∧ Q a) (fun e s => s.calls = c ∧ Fails b c e)

variable {m : SysM α} {Q Q' : α → Prop}

namespace Bounded

theorem post (h : Bounded b c m Q) (hQ : ∀ a, Q a → Q' a) : Bounded b c m Q' :=
  Triple.post h fun _ _ hs => ⟨hs.1, hQ _ hs.2⟩

theorem pure {a : α} (h : Q a) : Bounded b c (Pure.pure a) Q := Triple.pure a fun _ hs => ⟨hs, h⟩

theorem failWith (e : Errno) : Bounded b c (Spool.failWith e) Q :=
  .throw _ fun _ hs => ⟨hs, fails_errno e⟩

theorem bind {f : α → SysM β} {R : β → Prop} (hm : Bounded b c m Q)
    (hf : ∀ a, Q a → Bounded b c (f a) R) : Bounded b c (m >>= f) R :=
  Triple.bind hm fun a => Triple.assume (fun _ hs => hs.2) fun ha => (hf a ha).pre fun _ hs => hs.1

theorem read {f : Sys → SysM α} (h : ∀ s, Bounded b c (f s) Q) : Bounded b c (MonadState.get >>= f) Q :=
  Triple.read fun s _ => h s

theorem modify_bind {f : Sys → Sys} {g : PUnit → SysM α} (hf : ∀ s, (f s).calls = s.calls)
    (hg : ∀ u, Bounded b c (g u) Q) : Bounded b c (modify f >>= g) Q :=
  Triple.bind (Triple.modify fun s (hs : s.calls = c) => (hf s).trans hs) hg

theorem modify {f : Sys → Sys} (hf : ∀ s, (f s).calls = s.calls) :
    Bounded b c (modify f) fun _ => True :=
  Triple.modify fun s hs => ⟨(hf s).trans hs, trivial⟩

theorem ite {p : Prop} [Decidable p] {m' : SysM α} (h : p → Bounded b c m Q)
    (h' : ¬ p → Bounded b c m' Q) : Bounded b c (if p then m else m') Q :=
  Triple.ite h h'

/-- What changes nothing but the number of calls. -/
theorem of_later (h : ∀ s : Sys, (Smooth c → s.Succeeds) →
    Triple s.Later m (fun _ => s.Later) (fun e s' => s.Later s' ∧ Stopped (Smooth c) e)) :
    Bounded b c m fun _ => True :=
  fun s hs => (h s fun hc => hc.succeeds hs).weaken (fun _ _ hl => ⟨hl.calls.trans hs, trivial⟩)
    (fun _ _ he => ⟨he.1.calls.trans hs, he.2.fails⟩) s (.refl s)

theorem call : Bounded b c Spool.call fun _ => True :=
  .of_later fun _ hg => (call_spec hg).post fun _ _ hs => hs.1

theorem discardCall : Bounded b c (Functor.discard Spool.call : SysM Unit) fun _ => True :=
  .of_later fun _ hg => discardCall_spec hg

theorem callIgnored : Bounded b c Spool.callIgnored fun _ => True :=
  .of_later fun _ hg => callIgnored_spec hg

theorem tryLock : Bounded b c Spool.tryLock fun _ => True := .of_later fun _ hg => tryLock_spec hg

theorem onFailure {cleanup : SysM Unit} (h : Bounded b c m Q)
    (hclean : Bounded b c cleanup fun _ => True) : Bounded b c (Spool.onFailure m cleanup) Q :=
  onFailure_spec h (fun e => hclean.conseq (fun _ hs => hs.1) (fun _ _ hs => ⟨hs.1, fails_errno e⟩)
    fun _ _ => id) fun _ _ _ => id

theorem fullPwrite (fd : Nat) (buf : Bytes) (off : Nat) :
    Bounded b c (Spool.fullPwrite fd buf off) fun _ => True := by
  intro s hs
  refine (fullPwrite_spec (fun hc : Smooth c => hc.succeeds hs) fd buf off).weaken
    (fun _ _ hl => ⟨hl.calls.trans hs, trivial⟩) ?_ s (.refl s)
  rintro e s' ⟨⟨k, hl⟩, he⟩
  exact ⟨hl.calls.trans hs, he.fails⟩

theorem fullPreadLoop (fd : Nat) : ∀ (fuel size off : Nat) (buf : Bytes),
    Bounded b c (Spool.fullPreadLoop fd fuel size off buf) fun _ => True
  | 0, _, _, _ => .pure trivial
  | fuel + 1, size, off, buf => by
    rw [Spool.fullPreadLoop]
    refine .ite (fun _ => .pure trivial) fun _ => ?_
    have hread : Bounded b c (pread fd (min size ssizeMax) off) fun _ => True :=
      Bounded.call.bind fun _ _ => Bounded.read fun _ => Bounded.pure trivial
    exact hread.bind fun _ _ => .ite (fun _ => .failWith _) fun _ => .fullPreadLoop fd fuel _ _ _

theorem fullPread (fd size off : Nat) : Bounded b c (Spool.fullPread fd size off) fun _ => True :=
  .fullPreadLoop fd _ _ _ _

end Bounded

end Bounded

/-! ## Opening -/

section Opening

variable {b : Prop} {c : Nat → Outcome} {m es : Nat} {qFlags : Flags} {path : String}

/-- A queue as `q_open_no_resize` returns it. -/
structure Opened (m : Nat) (q : Queue) : Prop where
  head_lt : q.queueHead < q.numEntries
  allocated : ∀ mem, q.memory = some mem → mem.allocated = m

namespace Bounded

theorem openFile (path : String) (creat excl : Bool) :
    Bounded b c (Spool.openFile path creat excl) fun _ => True := by
  refine Bounded.call.bind fun _ _ => Bounded.read fun s => ?_
  cases s.names path with
  | some ino => exact Bounded.ite (fun _ => Bounded.failWith _) fun _ => Bounded.pure trivial
  | none =>
    refine .ite (fun _ => ?_) fun _ => .failWith _
    exact .modify_bind (fun _ => rfl) fun _ => .pure trivial

theorem qCreateFile (q : Queue) (fd : Nat) :
    Bounded b c (Spool.qCreateFile q fd) (· = fileHeader q.numEntries q.entrySize 0 0) := by
  refine (Bounded.fullPwrite _ _ _).bind fun _ _ => Bounded.bind (Q := fun _ => True) ?_ fun _ _ =>
    Bounded.discardCall.bind fun _ _ => Bounded.modify_bind (fun _ => rfl) fun _ => Bounded.pure rfl
  exact Bounded.ite (fun _ => Bounded.discardCall) fun _ => Bounded.pure trivial

theorem qFileHeader (q : Queue) (fd stSize : Nat) :
    Bounded b c (Spool.qFileHeader q fd stSize) fun _ => True := by
  exact Bounded.ite (fun _ => (Bounded.qCreateFile q fd).post fun _ _ => trivial) fun _ =>
    (Bounded.fullPread _ _ _).bind fun _ _ => Bounded.ite (fun _ => Bounded.pure trivial) fun _ =>
    .failWith _

/-- The head of the queue is one of its entries: `q_open_file` has looked. -/
theorem qFromHeader {q : Queue} (h : ∀ mem, q.memory = some mem → mem.allocated = m)
    (fd : Nat) (fh : Bytes) : Bounded b c (Spool.qFromHeader q fd fh) (Opened m) := by
  refine .ite (fun _ => .failWith _) fun hrange => .pure ⟨?_, h⟩
  rw [not_or, not_le] at hrange
  exact hrange.1

theorem qOpenFile {q : Queue} (h : ∀ mem, q.memory = some mem → mem.allocated = m)
    (path : String) : Bounded b c (Spool.qOpenFile q path) (Opened m) :=
  (Bounded.openFile _ _ _).bind fun _ _ => Bounded.discardCall.bind fun _ _ =>
    Bounded.discardCall.bind fun _ _ => Bounded.tryLock.bind fun _ _ =>
    Bounded.discardCall.bind fun _ _ => Bounded.read fun _ => (Bounded.qFileHeader _ _ _).bind
    fun _ _ => .qFromHeader h _ _

theorem allocMemory (qFlags : Flags) (m : Nat) : Bounded b c (Spool.allocMemory qFlags m)
    fun memory => ∀ mem, memory = some mem → mem.allocated = m := by
  refine Bounded.ite (fun _ => Bounded.discardCall.bind fun _ _ => Bounded.pure ?_)
    fun _ => Bounded.pure ?_
  · rintro mem ⟨⟩
    rfl
  · rintro mem ⟨⟩

theorem qOpenNoResize (qFlags : Flags) (path : String) (m es : Nat) :
    Bounded b c (Spool.qOpenNoResize qFlags path m es) (Opened m) :=
  Bounded.ite (fun hargs => Bounded.discardCall.bind fun _ _ => (Bounded.allocMemory _ m).bind
    fun _ hmem => .ite (fun _ => .qOpenFile hmem path) fun _ =>
    .pure ⟨(sizes_of_argsOk hargs).pos, hmem⟩) fun _ => .failWith _

/-- Without a file, or with a new one, the queue has the number of entries that is asked for. -/
theorem qOpenNoResize_new (qFlags : Flags) (path : String) (m es : Nat) :
    Bounded b c (Spool.qOpenNoResize { qFlags with creat := true, excl := true } path m es)
      fun q => Opened m q ∧ q.numEntries = m := by
  intro s hs
  suffices Triple (· = s) (Spool.qOpenNoResize { qFlags with creat := true, excl := true } path m es)
      (fun q s' => s'.calls = c ∧ Opened m q ∧ q.numEntries = m)
      (fun e s' => s'.calls = c ∧ Fails b c e) from this s rfl
  by_cases hargs : argsOk qFlags m es = true
  swap
  · exact .ite (fun hok => absurd hok hargs) fun _ => .throw _ fun _ h =>
      ⟨h ▸ hs, fails_errno _⟩
  have hsz := sizes_of_argsOk hargs
  have hg : Smooth c → s.Succeeds := fun hc => hc.succeeds hs
  have hstop : ∀ e s', s.Later s' ∧ Stopped (Smooth c) e → s'.calls = c ∧ Fails b c e :=
    fun e s' he => ⟨he.1.calls.trans hs, he.2.fails⟩
  have hopened : Opened m (initialQueue { qFlags with creat := true, excl := true } m es) :=
    ⟨hsz.pos, fun mem hm => by rw [initialQueue_memory hm]⟩
  refine qOpenNoResize_rule hg hstop (fun hno => absurd hargs hno)
    (fun _ s' hl => ⟨hl.calls.trans hs, hopened, rfl⟩) fun _ _ => ?_
  cases hname : s.names path with
  | some fd =>
    exact .bind (Q := fun _ _ => False) (.bind ((call_spec hg).weaken (fun _ _ h => h.1) hstop)
      fun _ => .read fun s₁ hl => by
        rw [hl.names, hname]
        exact .throw _ fun _ hl' => ⟨hl'.calls.trans hs, fails_errno _⟩) fun _ _ => False.elim
  | none =>
    refine qOpenFile_rule (p := True) (((openFile_new hg hname true).weaken
      (fun _ _ h => ⟨h.1, h.2, trivial⟩) hstop)) hg
      (fun e s' he => ⟨he.1.calls.trans hs, he.2.fails⟩) fun _ => ?_
    -- the file is empty, so the header is the one that is written now
    have hempty : (s.created path).inodes s.nextIno = File.empty := if_pos rfl
    rw [hempty, Spool.qFileHeader, if_pos (show File.empty.size = 0 from rfl)]
    refine .bind (Q := fun fh s' => s'.calls = c ∧ fh = fileHeader m es 0 0)
      ((Bounded.qCreateFile _ _).pre fun _ hl => hl.calls.trans hs) fun fh => ?_
    rintro s' ⟨hc, rfl⟩
    rw [qFromHeader_ok _ _ hsz.lt hsz.pos (Nat.zero_le _)]
    exact ⟨hc, ⟨hsz.pos, hopened.allocated⟩, rfl⟩

theorem mkstemp (path : String) : Bounded b c (Spool.mkstemp path) fun _ => True := by
  refine Bounded.call.bind fun n _ => Bounded.read fun s => ?_
  dsimp only
  cases s.names (path ++ toString n) with
  | some _ => exact .failWith _
  | none => exact .modify_bind (fun _ => rfl) fun _ => .pure trivial

theorem unlink (path : String) : Bounded b c (Spool.unlink path) fun _ => True :=
  Bounded.callIgnored.bind fun _ _ =>
    .ite (fun _ => .modify fun _ => rfl) fun _ => .pure trivial

end Bounded

end Opening

/-! ## Using the queue -/

section Using

variable {b : Prop} {c : Nat → Outcome} {α β : Type} {q : Queue}

/-- The array is long enough for the queue, and its head is one of the entries. -/
structure Queue.InRange (q : Queue) : Prop where
  head_lt : q.queueHead < q.numEntries
  room : ∀ mem, q.memory = some mem → q.numEntries ≤ mem.allocated

theorem Queue.InRange.not_beyond (h : q.InRange) {i : Nat} (hi : i < q.numEntries) : ¬ q.Beyond i := by
  rintro ⟨mem, hmem, hle⟩
  have := h.room mem hmem
  omega

theorem Queue.InRange.put (h : q.InRange) (i : Nat) (copy : Option Bytes) {head len : Nat}
    (hhead : head < q.numEntries) : ({ q with
      memory := q.memory.map fun mem => mem.put i copy
      queueHead := head
      queueLength := len } : Queue).InRange := by
  refine ⟨hhead, fun mem hmem => ?_⟩
  obtain ⟨mem₀, hmem₀, rfl⟩ := Option.map_eq_some_iff.mp hmem
  exact h.room mem₀ hmem₀

/-- The queue is in range if `b`. -/
def Ranged (b : Prop) (c : Nat → Outcome) (st : St) : Prop := st.sys.calls = c ∧ (b → st.q.InRange)

/-- A computation that keeps the queue in range. -/
def BoundedQ (b : Prop) (c : Nat → Outcome) (m : QM α) : Prop :=
  Triple (Ranged b c) m (fun _ => Ranged b c) (fun e st => Ranged b c st ∧ Fails b c e)

namespace BoundedQ

theorem failWith (e : Errno) :
    BoundedQ b c (Spool.failWith e : QM α) := .throw _ fun _ hst => ⟨hst, fails_errno e⟩

theorem pure (a : α) : BoundedQ b c (Pure.pure a : QM α) := Triple.pure a fun _ => id

theorem bind {m : QM α} {f : α → QM β} (hm : BoundedQ b c m) (hf : ∀ a, BoundedQ b c (f a)) :
    BoundedQ b c (m >>= f) := Triple.bind hm hf

theorem liftSys {m : SysM α} {Q : α → Prop} (h : Bounded b c m Q) : BoundedQ b c (Spool.liftSys m) := by
  rintro st ⟨hc, hq⟩
  have := h st.sys hc
  unfold Spool.liftSys
  cases hm : m st.sys with
  | ok a s => rw [hm] at this; exact ⟨this.1, hq⟩
  | error e s => rw [hm] at this; exact ⟨⟨this.1, hq⟩, this.2⟩

theorem syncFhState : BoundedQ b c Spool.syncFhState := by
  refine .read fun st _ => ?_
  cases st.q.fd with
  | none => exact BoundedQ.pure ()
  | some fd =>
    refine BoundedQ.bind (BoundedQ.liftSys (.fullPwrite _ _ _)) fun _ => .read fun st' _ => ?_
    exact .ite (fun _ => BoundedQ.liftSys .discardCall) fun _ => BoundedQ.pure ()

theorem qAppendNoSyncFhState (data : CString) : BoundedQ b c (Spool.qAppendNoSyncFhState data) := by
  rintro st ⟨hc, hq⟩
  refine (qAppendNoSyncFhState_spec (fun hsmooth : Smooth c => hsmooth.succeeds hc) data rfl).weaken
    ?_ ?_ st rfl
  · rintro _ st' ⟨hl, hq'⟩
    refine ⟨(hl.calls.trans (writtenPart_calls _ _ _)).trans hc, fun hb => ?_⟩
    rw [hq']
    exact (hq hb).put _ _ (hq hb).head_lt
  · rintro e st' ⟨⟨⟨buf, hl, -⟩, hq'⟩, he⟩
    refine ⟨⟨(hl.calls.trans (writtenPart_calls _ _ _)).trans hc, hq' ▸ hq⟩, fun hout hb => ?_, he.killed⟩
    exact (hq hb).not_beyond (Nat.mod_lt _ (Nat.zero_lt_of_lt (hq hb).head_lt)) (he.beyond hout)

theorem qPeek (size : Nat) : BoundedQ b c (Spool.qPeek size) := by
  have hcopy : ∀ data, BoundedQ b c (qPeekCopy data size) := fun _ =>
    .ite (fun _ => BoundedQ.failWith _) fun _ => BoundedQ.pure _
  have hremember : ∀ data, BoundedQ b c (rememberHead data) := fun data => .read fun st _ => by
    cases st.q.memory with
    | none => exact BoundedQ.pure ()
    | some mem =>
      refine (BoundedQ.liftSys .callIgnored).bind fun _ =>
        .ite (fun _ => .modify ?_) fun _ => BoundedQ.pure ()
      rintro st' ⟨hc, hq⟩
      exact ⟨hc, fun hb => (hq hb).put _ _ (hq hb).head_lt⟩
  have hfile : ∀ fd, BoundedQ b c (qPeekFile fd) := fun fd => .read fun st _ =>
    (BoundedQ.liftSys (.fullPread _ _ _)).bind fun _ => .ite (fun _ => BoundedQ.failWith _)
      fun _ => (hremember _).bind fun _ => BoundedQ.pure _
  refine .read fun st hst => ?_
  refine .ite (fun _ => BoundedQ.pure _) fun _ => .ite (fun hbeyond => .throw _
    fun st' hst' => ⟨hst', fun _ hb => ?_, fun h => by cases h⟩) fun _ => ?_
  · exact (hst.2 hb).not_beyond (hst.2 hb).head_lt hbeyond
  cases st.q.memory.bind (·.entry st.q.queueHead) with
  | some copy => exact hcopy _
  | none =>
    cases st.q.fd with
    | none => exact BoundedQ.failWith _
    | some fd => exact (hfile fd).bind fun _ => hcopy _

theorem qDropHeadMemoryOnly : BoundedQ b c Spool.qDropHeadMemoryOnly := by
  rintro st ⟨hc, hq⟩
  refine qDropHeadMemoryOnly_spec.weaken ?_ ?_ st rfl
  · rintro _ st' ⟨rfl, -⟩
    exact ⟨hc, fun hb => (hq hb).put _ _ (next_lt (hq hb).head_lt)⟩
  · rintro e st' ⟨rfl, hout, hkilled, -⟩
    exact ⟨⟨hc, hq⟩, fun he hb => (hq hb).not_beyond (hq hb).head_lt (hout he), fun he =>
      absurd he hkilled⟩

theorem attempt {m : QM α} (h : BoundedQ b c m) : BoundedQ b c (Spool.attempt m) := by
  intro st hst
  have := h st hst
  unfold Spool.attempt
  grind

/-- **Whatever is done with a queue** keeps to the array. -/
theorem uses : ∀ uses : List Use, BoundedQ b c (uses.forM Use.perform)
  | [] => BoundedQ.pure ()
  | u :: uses => by
    refine .bind ?_ fun _ => .uses uses
    cases u with
    | append data =>
      exact ((BoundedQ.qAppendNoSyncFhState data).bind fun _ => BoundedQ.syncFhState).attempt
    | peek size => exact (BoundedQ.qPeek size).attempt
    | dropHead => exact (BoundedQ.qDropHeadMemoryOnly.bind fun _ => BoundedQ.syncFhState).attempt

end BoundedQ

theorem Bounded.onQueue {m : QM α} (h : BoundedQ b c m) (hq : b → q.InRange) :
    Bounded b c (Spool.onQueue q m) fun r => b → r.2.InRange := by
  intro s hs
  have := h ⟨s, q⟩ ⟨hs, hq⟩
  unfold Spool.onQueue
  cases hm : m ⟨s, q⟩ with
  | ok a st => rw [hm] at this; exact this
  | error e st => rw [hm] at this; exact ⟨this.1.1, this.2⟩

end Using

/-! ## Resizing and closing -/

section Closing

variable {b : Prop} {c : Nat → Outcome} {m es : Nat} {qFlags : Flags} {path : String} {q : Queue}

/-- The copying loop uses two arrays. -/
theorem Bounded.qMoveAll (es : Nat) : ∀ (fuel : Nat) (q q₂ : Queue), (b → q.InRange) →
    (b → q₂.InRange) → Bounded b c (Spool.qMoveAll es fuel q q₂) fun q' => b → q'.InRange
  | 0, _, _, _, h₂ => .pure h₂
  | fuel + 1, q, q₂, h, h₂ => by
    rw [Spool.qMoveAll]
    refine (Bounded.onQueue (BoundedQ.qPeek es) h).bind fun r hr =>
      Bounded.ite (fun _ => Bounded.pure h₂) fun _ => Bounded.ite (fun _ => Bounded.failWith _) fun _ => ?_
    refine (Bounded.onQueue (BoundedQ.qAppendNoSyncFhState _) h₂).bind fun r₂ hr₂ =>
      (Bounded.onQueue BoundedQ.qDropHeadMemoryOnly hr).bind fun r₃ hr₃ => ?_
    exact .qMoveAll es fuel r₃.2 r₂.2 hr₃ hr₂

theorem freeEntries_eq (mem : Memory) : ∀ (n : Nat) (s : Sys), freeEntries mem n s =
    if n ≤ mem.allocated then .ok () s else .error .outOfBounds s
  | 0, s => (if_pos (Nat.zero_le _)).symm
  | i + 1, s => by
    have hrec := freeEntries_eq mem i s
    rw [freeEntries]
    by_cases hi : i ≤ mem.allocated
    · rw [if_pos hi] at hrec
      rw [bind_ok hrec]
      by_cases hlt : mem.allocated ≤ i
      · rw [if_pos hlt, if_neg (by omega)]
        rfl
      · rw [if_neg hlt, if_pos (by omega)]
        rfl
    · rw [if_neg hi] at hrec
      rw [bind_error hrec, if_neg (by omega)]

theorem Bounded.qClose (h : b → ∀ mem, q.memory = some mem → q.numEntries ≤ mem.allocated) :
    Bounded b c (Spool.qClose q) fun _ => True := by
  refine .bind (Q := fun _ => True) ?_ fun _ _ => ?_
  · exact Bounded.ite (fun _ => Bounded.callIgnored.discard) fun _ => Bounded.pure trivial
  · cases hmem : q.memory with
    | none => exact .pure trivial
    | some mem =>
      have hfree : Bounded b c (freeEntries mem q.numEntries) fun _ => True := by
        intro s hs
        rw [freeEntries_eq]
        by_cases hle : q.numEntries ≤ mem.allocated
        · rw [if_pos hle]
          exact ⟨hs, trivial⟩
        · rw [if_neg hle]
          exact ⟨hs, fun _ hb => hle (h hb mem hmem), fun h => by cases h⟩
      exact hfree

/-- **Closing a queue** whose array is too short uses an entry behind it. -/
theorem qClose_outOfBounds (hc : Smooth c) {mem : Memory} (hmem : q.memory = some mem)
    (hlt : mem.allocated < q.numEntries) :
    Triple (·.calls = c) (Spool.qClose q) (fun _ _ => False) (fun e _ => e = .outOfBounds) := by
  refine .bind (Q := fun _ _ => True) ?_ fun _ => ?_
  · refine .ite (fun _ => .discard fun s hs => ?_) fun _ => .pure _ fun _ _ => trivial
    exact (callIgnored_spec (fun _ : True => hc.succeeds hs)).weaken (fun _ _ _ => trivial)
      (fun _ _ he => absurd trivial he.2.2) s (.refl s)
  · rw [hmem]
    have hfree : Triple (fun _ => True) (freeEntries mem q.numEntries) (fun _ _ => False)
        (fun e _ => e = .outOfBounds) := by
      intro s _
      rw [freeEntries_eq, if_neg (by omega)]
    exact hfree

theorem Bounded.qReplace (hq : b → q.InRange) :
    Bounded b c (Spool.qReplace qFlags path m es q) fun q' => b → q'.InRange := by
  refine .ite (fun _ => .failWith _) fun _ =>
    Bounded.ite (fun _ => Bounded.failWith _) fun _ => Bounded.discardCall.bind fun _ _ =>
    Bounded.discardCall.bind fun _ _ => (Bounded.mkstemp path).bind fun tmp _ =>
    .onFailure ?_ (.unlink tmp)
  refine Bounded.discardCall.bind fun _ _ => Bounded.discardCall.bind fun _ _ =>
    Bounded.modify_bind (fun _ => rfl) fun _ => (Bounded.qOpenNoResize_new qFlags tmp m es).bind
    fun q₂ hopened₂ => ?_
  have hroom₂ : ∀ mem, q₂.memory = some mem → q₂.numEntries ≤ mem.allocated := fun mem hmem => by
    rw [hopened₂.1.allocated mem hmem, hopened₂.2]
  refine .onFailure (.ite (fun _ => .failWith _) fun _ => ?_) (.qClose fun _ => hroom₂)
  exact (Bounded.qMoveAll es _ q q₂ hq fun _ => ⟨hopened₂.1.head_lt, hroom₂⟩).bind fun q₃ hq₃ =>
    (Bounded.onQueue BoundedQ.syncFhState hq₃).bind fun r hr => Bounded.discardCall.bind fun _ _ =>
    .modify_bind (fun _ => rfl) fun _ => .pure hr

/-- What `q_open` does once the queue is open. -/
theorem Bounded.qResize (hq : b → q.InRange) :
    Bounded b c (Spool.qResize qFlags path m es q) fun q' => b → q'.InRange := by
  have hclose : Bounded b c (Spool.qClose q) fun _ => True := .qClose fun hb => (hq hb).room
  exact .ite (fun _ => .pure hq) fun _ =>
    ((Bounded.qReplace hq).onFailure hclose).bind fun q₂ hq₂ => hclose.bind fun _ _ => Bounded.pure hq₂

/-- **A queue with an array that is long enough** stays within it: whatever is at `path`, and however
the system calls come out. -/
theorem session_inBounds {s : Sys} (h : ∀ c q s', qOpenNoResize qFlags path m es (s.withCalls c) =
    .ok q s' → ∀ mem, q.memory = some mem → q.numEntries ≤ mem.allocated) :
    InBounds qFlags path m es s := by
  intro c uses s' hrun
  have hspec : Triple (· = s.withCalls c) (session qFlags path m es uses) (fun _ _ => True)
      (fun e _ => Fails True c e) := by
    have hopen : Triple (· = s.withCalls c) (qOpenNoResize qFlags path m es) _ _ :=
      Triple.pre (Bounded.qOpenNoResize (b := True) qFlags path m es) fun s' hs => by rw [hs]
    refine .bind (hopen.result.err fun _ _ he => he.2) fun q => ?_
    rintro s₁ ⟨hok, hcalls, hopened⟩
    have hrest : Bounded True c (do
        let q ← Spool.qResize qFlags path m es q
        let r ← onQueue q (uses.forM Use.perform)
        Spool.qClose r.2) fun _ => True :=
      (Bounded.qResize fun _ => ⟨hopened.head_lt, h c q s₁ hok⟩).bind fun q₂ hq₂ =>
        (Bounded.onQueue (BoundedQ.uses uses) hq₂).bind fun r hr => Bounded.qClose fun hb => (hr hb).room
    exact Triple.conseq hrest (fun _ => id) (fun _ _ _ => trivial) (fun _ _ he => he.2) s₁ hcalls
  have hfails := hspec (s.withCalls c) rfl
  rw [hrun] at hfails
  exact hfails.1 rfl trivial

/-- **There is no way out** of an array that is too short: whether `q_open` resizes the queue or fails,
it closes it. -/
theorem qResize_outOfBounds (qFlags : Flags) (path : String) (es : Nat) (hc : Smooth c)
    (hopened : Opened m q) {mem : Memory} (hmem : q.memory = some mem) (hlt : m < q.numEntries) :
    Triple (·.calls = c) (Spool.qResize qFlags path m es q) (fun _ _ => False)
      (fun e _ => e = .outOfBounds) := by
  have hclose := qClose_outOfBounds hc hmem (by rw [hopened.allocated mem hmem]; exact hlt)
  refine .ite (fun heq => absurd heq hlt.ne') fun _ => .bind (onFailure_spec
    (Bounded.qReplace (b := False) False.elim) (fun e => ?_) ?_) fun q₂ => ?_
  · exact hclose.conseq (fun _ hs => hs.1) (fun _ _ => False.elim) fun _ _ => id
  · rintro e s hne ⟨-, -, hkilled⟩
    cases e with
    | errno e => exact absurd rfl (hne e)
    | killed => exact absurd hc (hkilled rfl)
    | outOfBounds => rfl
  · exact (hclose.pre fun _ hs => hs.1).bind fun _ _ => False.elim

end Closing

/-! ## Queue files -/

section QueueFile

variable {path : String} {n es fd head m : Nat} {held : List CString} {s : Sys} {qFlags : Flags}

/-- The size of the entries is looked at. -/
theorem headerFits_entrySize {es' len stSize : Nat} (hes : es < 2 ^ 32) (hes' : es' < 2 ^ 32)
    (h : headerFits (fileHeader n es head len) es' stSize = true) : es' = es := by
  simp only [headerFits, fileHeader_entrySize, Bool.and_eq_true, beq_iff_eq] at h
  have hbytes := congrArg ofBytesBE h.1.2
  rw [ofBytesBE_bytesBE_of_lt (by omega), ofBytesBE_bytesBE_of_lt (by omega)] at hbytes
  exact hbytes.symm

theorem qOpenNoResize_otherSize {es' : Nat} (hsz : Sizes n es) (hne : es' ≠ es)
    (h : FileHolds path n es fd head held s) :
    Triple (· = s) (qOpenNoResize qFlags path m es') (fun q _ => q.numEntries = m)
      (fun _ _ => True) := by
  refine qOpenNoResize_rule (g := False) False.elim (fun _ _ _ => trivial) (fun _ => trivial)
    (fun _ _ _ => rfl) fun hargs _ => qOpenFile_rule ((openFile_old (g := False) False.elim h.named _
    _).err fun _ _ _ => trivial) False.elim (fun _ _ _ => trivial) fun _ => ?_
  refine .bind (Q := fun _ _ => False) ?_ fun _ _ => False.elim
  have hpos := le_slot es n
  have h32 := hsz.header_le
  rw [qFileHeader, if_neg (by rw [h.disk.size]; omega)]
  refine .bind ((fullPreadLoop_spec (g := False) False.elim fd _ _ 0 [] le_rfl).err
    fun _ _ _ => trivial) fun fh => .assume (fun _ hs => hs.2.2) ?_
  rintro rfl
  rw [List.nil_append, h.header]
  refine .ite (fun hfits => ?_) fun _ => .throw _ fun _ _ => trivial
  exact absurd (headerFits_entrySize hsz.es_lt (sizes_of_argsOk hargs).es_lt hfits) hne

/-- The queue that `q_open_no_resize` returns for a queue file has an array that is long enough, unless
the file has more entries than are asked for. -/
theorem opened_room {es' : Nat} {c : Nat → Outcome} {q : Queue} {s' : Sys}
    (hargs : argsOk fileFlags n es = true) (h : FileHolds path n es fd head held s)
    (hnot : ¬ (Opens qFlags m es' ∧ es' = es ∧ n + 1 < 2 ^ 32 ∧ qFlags.inMemory = true ∧ m < n))
    (hok : qOpenNoResize qFlags path m es' (s.withCalls c) = .ok q s') {mem : Memory}
    (hmem : q.memory = some mem) : q.numEntries ≤ mem.allocated := by
  have hsz := sizes_of_argsOk hargs
  have hholds : FileHolds path n es fd head held (s.withCalls c) := h.congr rfl rfl
  obtain ⟨-, hopened⟩ := Triple.of_ok (Bounded.qOpenNoResize (b := True) qFlags path m es')
    (show (s.withCalls c).calls = c from rfl) hok
  rw [hopened.allocated mem hmem]
  by_cases hes : es' = es
  · subst hes
    obtain ⟨-, hold⟩ := (qOpenNoResize_old (g := False) False.elim hsz
      (argsOk_iff.mp hargs).2.2.2.2.2 hholds).of_ok rfl hok
    rcases hold with ⟨-, hm⟩ | ⟨hopens, hn, rfl⟩
    · exact hm.le
    · have hin : qFlags.inMemory = true := by
        by_contra hin
        simp [oldQueue, initialQueue, hin] at hmem
      exact not_lt.mp fun hlt => hnot ⟨hopens, rfl, hn, hin, hlt⟩
  · exact ((qOpenNoResize_otherSize hsz hes hholds).of_ok rfl hok).le

/-- A file with more entries than are asked for, opened for a queue that is kept in memory as well. -/
theorem not_inBounds (hargs : argsOk fileFlags n es = true) (h : FileHolds path n es fd head held s)
    (hopens : Opens qFlags m es) (hn : n + 1 < 2 ^ 32) (hin : qFlags.inMemory = true) (hlt : m < n) :
    ¬ InBounds qFlags path m es s := by
  intro hbounds
  have hsmooth : Smooth fun _ => .done 1 := fun _ => ⟨1, Nat.one_pos, rfl⟩
  have hholds : FileHolds path n es fd head held (s.withCalls fun _ => .done 1) := h.congr rfl rfl
  have hopen : Triple (· = s.withCalls fun _ => .done 1) (qOpenNoResize qFlags path m es) _ _ :=
    qOpenNoResize_old (fun _ : True => hsmooth.succeeds rfl) (sizes_of_argsOk hargs)
      (argsOk_iff.mp hargs).2.2.2.2.2 hholds
  obtain ⟨q, s₁, hok, hl, hq⟩ := (hopen.err
    fun _ _ he => he.2.2 trivial ⟨hopens, hn⟩).total rfl
  rcases hq with ⟨hfile, -⟩ | ⟨-, -, rfl⟩
  · rw [hopens.inFile] at hfile
    cases hfile
  obtain ⟨-, hopened⟩ := Triple.of_ok (Bounded.qOpenNoResize (b := True) qFlags path m es) rfl hok
  have hmem : (oldQueue qFlags m es fd n head held.length).memory = some ⟨m, fun _ => none⟩ := if_pos hin
  have hresize := qResize_outOfBounds qFlags path es hsmooth hopened hmem hlt s₁ hl.calls
  cases hrun : qResize qFlags path m es (oldQueue qFlags m es fd n head held.length) s₁ with
  | ok q₂ s₂ => rw [hrun] at hresize; exact hresize
  | error e s₂ =>
    rw [hrun] at hresize
    obtain rfl : e = .outOfBounds := hresize
    exact hbounds _ [] s₂ (by rw [session, bind_ok hok, bind_error hrun])

/-- **The array in memory**: on a queue file its bounds are kept, unless the file has more entries than
are asked for and the queue is kept in memory as well. -/
theorem inBounds_iff (hargs : argsOk fileFlags n es = true) (h : FileHolds path n es fd head held s)
    (qFlags : Flags) (m es' : Nat) :
    InBounds qFlags path m es' s ↔
      ¬ (Opens qFlags m es' ∧ es' = es ∧ n + 1 < 2 ^ 32 ∧ qFlags.inMemory = true ∧ m < n) := by
  constructor
  · rintro hbounds ⟨hopens, rfl, hn, hin, hlt⟩
    exact not_inBounds hargs h hopens hn hin hlt hbounds
  · intro hnot
    exact session_inBounds fun c q s' hok mem hmem => opened_room hargs h hnot hok hmem

end QueueFile

/-- The flags `audisp-remote` opens its queue with. -/
def remoteFlags : Flags := ⟨true, true, true, false, false, true⟩

/-- A directory with a queue file of four entries that holds nothing. -/
def emptySpool : Sys :=
  ⟨fun _ => newFile 4 32, fun p => if p = "spool" then some 0 else none, 1, fun _ => .done (2 ^ 63), 0⟩

theorem emptySpool_holds : FileHolds "spool" 4 32 0 0 [] emptySpool := by
  have hnew := newFile_onDisk (show Sizes 4 32 from ⟨by decide, by decide, le_rfl, by decide⟩)
  exact ⟨rfl, hnew.1, hnew.2, by decide, by decide⟩

/-- Opened for more entries than it has, a queue file is safe. -/
theorem inBounds_grown : InBounds remoteFlags "spool" 8 32 emptySpool :=
  (inBounds_iff (by decide) emptySpool_holds remoteFlags 8 32).mpr fun h => absurd h.2.2.2.2 (by decide)

/-- **Opened for fewer it is not**, even if it is empty: `q_close` frees entries 2 and 3 of an array of
two. -/
theorem not_inBounds_shrunk : FileHolds "spool" 4 32 0 0 [] emptySpool ∧
    ¬ InBounds remoteFlags "spool" 2 32 emptySpool :=
  ⟨emptySpool_holds, not_inBounds (by decide) emptySpool_holds ⟨by decide, rfl, rfl⟩ (by decide) rfl
    (by decide)⟩

end LibAudit.Spool
