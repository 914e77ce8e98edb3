import LibAudit.Lib.Ring
import LibAudit.Spool.Calls

/-!
# The spool queue is a bounded FIFO of strings

What the queue is for is said by `Fifo.step`: a list of strings, at most `n` of them, each no
longer than an entry.  `step` performs the same operation on the queue of `queue.c`, in whichever
of the three modes it was opened, and `step_refines` is the simulation between the two.

The invariant `Inv` ties a `struct queue` and the file under it to the list of strings it holds.
Both the cache array and the file are rings, so it says the same thing twice with a different
notion of slot: a slot of the array holds a pointer to the string, or nothing if the string has
not been looked at since the queue was opened; a slot of the file *begins* with the string and its
NUL, whatever older entries left behind it.
-/

namespace LibAudit.Spool

open Word Ring Hoare Option List

/-! ## What the queue is for -/

/-- The operations on an open queue, and closing it and opening it again. -/
inductive Op
  | append (data : CString)
  | peek (size : Nat)
  | dropHead
  | reopen (qFlags : Flags)

/-- What an operation tells its caller. -/
inductive Reply
  | ret (r : Int)
  | peeked (p : Peek)
  | failed (e : Fault)
  deriving DecidableEq

/-- A FIFO of at most `n` strings, each of which fits `es` bytes with its NUL. -/
def Fifo.step (n es : Nat) : Op → List CString → Reply × List CString
  | .append data, held =>
    if held.length = n then (.failed (.errno .enospc), held)
    else if es < data.strlen + 1 then (.failed (.errno .einval), held)
    else (.ret 0, held ++ [data])
  | .peek _, [] => (.peeked ⟨0, []⟩, [])
  | .peek size, data :: held =>
    if size < data.strlen + 1 then (.failed (.errno .erange), data :: held)
    else (.peeked ⟨toInt (data.strlen + 1), data.withNul⟩, data :: held)
  | .dropHead, [] => (.failed (.errno .einval), [])
  | .dropHead, _ :: held => (.ret 0, held)
  | .reopen _, held => (.ret 0, held)

/-- The answers of a FIFO to a sequence of operations, each with the number of strings held
afterwards. -/
def Fifo.run (n es : Nat) : List Op → List CString → List (Reply × Nat)
  | [], _ => []
  | op :: ops, held =>
    let (reply, held') := Fifo.step n es op held
    (reply, held'.length) :: Fifo.run n es ops held'

/-! ## What `queue.c` does -/

/-- One operation on the queue at `path`.  A queue that could not be reopened is gone; the old
structure stands in for it. -/
def step (path : String) (n es : Nat) : Op → St → Reply × St
  | .append data, st =>
    match qAppend data st with
    | .ok _ st' => (.ret 0, st')
    | .error e st' => (.failed e, st')
  | .peek size, st =>
    match qPeek size st with
    | .ok p st' => (.peeked p, st')
    | .error e st' => (.failed e, st')
  | .dropHead, st =>
    match qDropHead st with
    | .ok _ st' => (.ret 0, st')
    | .error e st' => (.failed e, st')
  | .reopen qFlags, st =>
    match qOpen qFlags path n es st.sys with
    | .ok q s => (.ret 0, ⟨s, q⟩)
    | .error e s => (.failed e, ⟨s, st.q⟩)

/-- The answers of the queue to a sequence of operations, each with `q_queue_length` afterwards. -/
def run (path : String) (n es : Nat) : List Op → St → List (Reply × Nat)
  | [], _ => []
  | op :: ops, st =>
    let (reply, st') := step path n es op st
    (reply, qQueueLength st'.q) :: run path n es ops st'

theorem Fifo.run_cons (n es : Nat) (op : Op) (ops : List Op) (held : List CString) :
    Fifo.run n es (op :: ops) held =
      ((Fifo.step n es op held).1, (Fifo.step n es op held).2.length) ::
        Fifo.run n es ops (Fifo.step n es op held).2 := rfl

theorem run_cons (path : String) (n es : Nat) (op : Op) (ops : List Op) (st : St) :
    run path n es (op :: ops) st =
      ((step path n es op st).1, qQueueLength (step path n es op st).2.q) ::
        run path n es ops (step path n es op st).2 := rfl

/-! ## The invariant -/

/-- The part of the header that never changes. -/
def headerConst (n es : Nat) : Bytes := fhMagic ++ [fhVersion0, 0] ++ bytesBE 4 n ++ bytesBE 4 es

@[simp] theorem length_headerConst (n es : Nat) : (headerConst n es).length = 24 := by
  simp [headerConst, fhMagic]

@[simp] theorem length_fhState (head len : Nat) : (fhState head len).length = 8 := by
  simp [fhState]

theorem fileHeader_eq (n es head len : Nat) :
    fileHeader n es head len = headerConst n es ++ fhState head len := by
  simp [fileHeader, headerConst]

/-- Slot `i` of the cache array has a copy of `c`, or has none but the file does. -/
def Cached (inFile : Bool) (mem : Memory) (i : Nat) (c : CString) : Prop :=
  mem.entry i = some c.withNul ∨ mem.entry i = none ∧ inFile = true

/-- Slot `i` of the file begins with `c` and its NUL. -/
def Stored (es : Nat) (f : File) (i : Nat) (c : CString) : Prop :=
  c.strlen + 1 ≤ es ∧ f.slice ((i + 1) * es) (c.strlen + 1) = c.withNul

/-- The cache array caches the strings of `held`, and nothing else. -/
structure InMemory (inFile : Bool) (n head : Nat) (held : List CString) (mem : Memory) :
    Prop where
  allocated : mem.allocated = n
  cached : Holds (Cached inFile mem) n head held
  free : Free (fun i => mem.entry i = none) n head held.length

/-- The file has the format of a queue file of `n` entries, and holds the strings of `held`. -/
structure OnDisk (n es head : Nat) (held : List CString) (f : File) : Prop where
  size : f.size = (n + 1) * es
  header : f.slice 0 24 = headerConst n es
  stored : Holds (Stored es f) n head held

/-- The queue `st.q`, opened on `path` with `n` entries of `es` bytes, holds the strings of
`held`.  The numbers in the file header are `head` and `len`: between the two halves of an
operation they lag behind those of the queue. -/
structure InvAt (path : String) (n es head len : Nat) (st : St) (held : List CString) : Prop where
  numEntries : st.q.numEntries = n
  entrySize : st.q.entrySize = es
  head_lt : st.q.queueHead < n
  length : st.q.queueLength = held.length
  length_le : held.length ≤ n
  memory : ∀ mem, st.q.memory = some mem →
    InMemory st.q.fd.isSome n st.q.queueHead held mem
  named : ∀ fd, st.q.fd = some fd → st.sys.names path = some fd
  disk : ∀ fd, st.q.fd = some fd → OnDisk n es st.q.queueHead held (st.sys.inodes fd)
  state : ∀ fd, st.q.fd = some fd → (st.sys.inodes fd).slice 24 8 = fhState head len
  somewhere : st.q.memory.isSome ∨ st.q.fd.isSome

/-- The invariant between operations: the header is up to date. -/
def Inv (path : String) (n es : Nat) (st : St) (held : List CString) : Prop :=
  InvAt path n es st.q.queueHead held.length st held

/-- What `q_open` has checked about the numbers it was given. -/
structure Sizes (n es : Nat) : Prop where
  pos : 0 < n
  lt : n < 2 ^ 32
  header_le : 32 ≤ es
  es_lt : es < 2 ^ 32

theorem Sizes.mul_lt {n es : Nat} (h : Sizes n es) : (n + 1) * es < 2 ^ 64 := by
  have h1 : (n + 1) * es ≤ 2 ^ 32 * es := Nat.mul_le_mul_right _ h.lt
  have h2 : 2 ^ 32 * es < 2 ^ 32 * 2 ^ 32 := by
    have := h.es_lt
    omega
  omega

theorem argsOk_iff {qFlags : Flags} {n es : Nat} : argsOk qFlags n es = true ↔
    (qFlags.inMemory || qFlags.inFile) = true ∧ 0 < n ∧ n < 2 ^ 32 ∧ 32 ≤ es ∧
      es ≤ uint32Max - sizeofQueue ∧ n ≤ sizeMax / es - 1 := by
  simp only [argsOk, Bool.and_eq_true, Bool.not_eq_true', Bool.or_eq_false_iff,
    beq_eq_false_iff_ne, decide_eq_false_iff_not]
  simp only [sizeofFileHeader, sizeMax, uint32Max, sizeofQueue]
  grind

theorem sizes_of_argsOk {qFlags : Flags} {n es : Nat} (h : argsOk qFlags n es = true) : Sizes n es := by
  obtain ⟨-, h1, h2, h3, h4, -⟩ := argsOk_iff.mp h
  exact ⟨h1, h2, h3, by simp only [uint32Max, sizeofQueue] at h4; omega⟩

/-! ## Frame lemmas -/

variable {c data : CString} {i head len : Nat}

theorem slot_add_le {es j a : Nat} (hlt : i < j) (ha : a ≤ es) : (i + 1) * es + a ≤ (j + 1) * es :=
  calc (i + 1) * es + a ≤ (i + 1) * es + es := by omega
    _ = (i + 1 + 1) * es := by ring
    _ ≤ (j + 1) * es := Nat.mul_le_mul_right _ (by omega)

/-- Different slots do not overlap. -/
theorem slot_disjoint {es j a b : Nat} (hne : i ≠ j) (ha : a ≤ es) (hb : b ≤ es) :
    (i + 1) * es + a ≤ (j + 1) * es ∨ (j + 1) * es + b ≤ (i + 1) * es :=
  (Nat.lt_or_gt_of_ne hne).imp (slot_add_le · ha) (slot_add_le · hb)

/-- Every slot lies behind the header. -/
theorem le_slot (es i : Nat) : es ≤ (i + 1) * es := Nat.le_mul_of_pos_left _ (Nat.succ_pos i)

theorem Stored.write_other {es : Nat} {f : File} {j : Nat}
    (h : Stored es f i c) (hne : i ≠ j) {buf : Bytes} (hbuf : buf.length ≤ es) :
    Stored es (f.write buf ((j + 1) * es)) i c := by
  refine ⟨h.1, ?_⟩
  rw [File.slice_write_of_disjoint, h.2]
  exact slot_disjoint hne h.1 hbuf

theorem stored_write_self {es : Nat} (f : File) (i : Nat)
    (hd : data.strlen + 1 ≤ es) : Stored es (f.write data.withNul ((i + 1) * es)) i data := by
  refine ⟨hd, ?_⟩
  rw [← CString.length_withNul, File.slice_write_self]

theorem Stored.write_state {es : Nat} {f : File} (h : Stored es f i c) (hes : 32 ≤ es) (head len : Nat) :
    Stored es (f.write (fhState head len) offsetofFhState) i c := by
  refine ⟨h.1, ?_⟩
  rw [File.slice_write_of_disjoint, h.2]
  right
  have := le_slot es i
  simp only [offsetofFhState, length_fhState]
  omega

/-- The invariant sees nothing of the system but the queue's file. -/
theorem InvAt.congr_sys {path : String} {n es : Nat} {st : St} {held : List CString}
    (h : InvAt path n es head len st held) {s : Sys} (hn : s.names = st.sys.names)
    (hi : ∀ fd, st.q.fd = some fd → s.inodes fd = st.sys.inodes fd) :
    InvAt path n es head len { st with sys := s } held where
  __ := h
  named fd hfd := by
    rw [hn]
    exact h.named fd hfd
  disk fd hfd := by
    rw [hi fd hfd]
    exact h.disk fd hfd
  state fd hfd := by
    rw [hi fd hfd]
    exact h.state fd hfd

theorem InvAt.later {path : String} {n es : Nat} {st : St} {held : List CString}
    (h : InvAt path n es head len st held) {s : Sys} (hl : st.sys.Later s) :
    InvAt path n es head len { st with sys := s } held :=
  h.congr_sys hl.names fun _ _ => by rw [hl.inodes]

theorem InvAt.setFile {path : String} {n es head' len' : Nat} {st : St}
    {held : List CString} (h : InvAt path n es head len st held) {fd : Nat}
    (hfd : st.q.fd = some fd) {f : File} (hf : OnDisk n es st.q.queueHead held f)
    (hstate : f.slice 24 8 = fhState head' len') :
    InvAt path n es head' len' { st with sys := st.sys.setFile fd f } held where
  __ := h
  disk fd' hfd' := by simp_all
  state fd' hfd' := by simp_all

theorem InvAt.not_beyond {path : String} {n es : Nat} {st : St} {held : List CString}
    (h : InvAt path n es head len st held) (hi : i < n) : ¬ st.q.Beyond i := by
  rintro ⟨mem, hmem, hle⟩
  have := (h.memory mem hmem).allocated
  omega

/-! ## Running one function after another -/

theorem get_bind {σ α : Type} (f : σ → EStateM Fault σ α) (s : σ) : (get >>= f) s = f s s := rfl

section Ops

variable {path : String} {n es : Nat} {st : St} {held : List CString}

/-- The queue once its state is in the header. -/
theorem InvAt.synced (hsz : Sizes n es) (h : InvAt path n es head len st held)
    {fd : Nat} (hfd : st.q.fd = some fd) :
    Inv path n es { st with sys := st.sys.setFile fd (st.q.syncedFile (st.sys.inodes fd)) } held := by
  have hd := h.disk fd hfd
  have hdisk : OnDisk n es st.q.queueHead held (st.q.syncedFile (st.sys.inodes fd)) :=
    { size := by
        have := le_slot es n
        rw [Queue.syncedFile, File.size_write_of_le, hd.size]
        rw [hd.size, length_fhState, offsetofFhState]
        have := hsz.header_le
        omega
      header := by
        rw [Queue.syncedFile, File.slice_write_of_disjoint _ (.inl (by simp [offsetofFhState])),
          hd.header]
      stored := hd.stored.mono fun i c hc => hc.write_state hsz.header_le _ _ }
  have hstate : (st.q.syncedFile (st.sys.inodes fd)).slice 24 8 =
      fhState st.q.queueHead held.length := by
    have := File.slice_write_self (st.sys.inodes fd)
      (fhState st.q.queueHead st.q.queueLength) offsetofFhState
    rw [length_fhState] at this
    rw [← h.length]
    exact this
  exact h.setFile hfd hdisk hstate

/-- `sync_fh_state` brings the header up to date and changes nothing else. -/
theorem syncFhState_inv (hsz : Sizes n es) (hs : st.sys.Succeeds)
    (h : InvAt path n es head len st held) :
    Triple (· = st) syncFhState
      (fun _ st' => st'.sys.Succeeds ∧ st'.q.fd = st.q.fd ∧ Inv path n es st' held)
      (fun _ _ => False) := by
  cases hfd : st.q.fd with
  | none =>
    refine .get_bind_eq ?_
    rw [hfd]
    refine .pure _ ?_
    rintro st rfl
    exact ⟨hs, hfd, h.numEntries, h.entrySize, h.head_lt, h.length, h.length_le, h.memory, h.named,
      h.disk, fun fd hfd' => absurd (hfd.symm.trans hfd') (by simp), h.somewhere⟩
  | some fd =>
    refine (St.Later.start (syncFhState_spec (fun _ : True => hs) hfd)).weaken ?_
      fun _ _ he => he.1.2.2 trivial
    rintro _ ⟨s', q'⟩ ⟨hl, hq⟩
    obtain rfl : q' = st.q := hq
    exact ⟨hl.succeeds (hs.setFile _ _), hfd, (h.synced hsz hfd).later hl⟩

/-! ## `q_append` -/

theorem Memory.put_entry_self (mem : Memory) (i : Nat) (copy : Option Bytes) :
    (mem.put i copy).entry i = copy := if_pos rfl

theorem Memory.put_entry_ne (mem : Memory) {j : Nat} (copy : Option Bytes) (h : j ≠ i) :
    (mem.put i copy).entry j = mem.entry j := if_neg h

/-- The queue once `data` is in: the array and the file have it, the header does not yet. -/
theorem InvAt.append (hsz : Sizes n es) (h : InvAt path n es head len st held)
    (hlt : held.length < n) (data : CString) (hfit : data.strlen + 1 ≤ es)
    (hi : i = (st.q.queueHead + held.length) % n) :
    InvAt path n es head len ⟨writtenPart st i data.withNul, st.q.appended i data⟩
      (held ++ [data]) where
  __ := h
  length := by simp [Queue.appended, h.length]
  length_le := by simp; omega
  memory mem hm := by
    obtain ⟨mem0, hm0, rfl⟩ := map_eq_some_iff.mp hm
    have hmem := h.memory mem0 hm0
    refine ⟨hmem.allocated, hmem.cached.push hlt (fun j c hj hc => ?_) ?_, ?_⟩
    · rw [← hi] at hj
      show (mem0.put i _).entry j = _ ∨ (mem0.put i _).entry j = _ ∧ _
      rw [Memory.put_entry_ne _ _ hj]
      exact hc
    · left
      rw [← hi, Memory.put_entry_self]
    · rw [length_append, length_singleton]
      refine hmem.free.push fun j hj hnone => ?_
      rw [← hi] at hj
      rw [Memory.put_entry_ne _ _ hj]
      exact hnone
  named fd hfd := by
    have hfd' : st.q.fd = some fd := hfd
    rw [writtenPart, hfd']
    exact h.named fd hfd
  disk fd hfd := by
    have hfd' : st.q.fd = some fd := hfd
    have hd := h.disk fd hfd'
    have hin : i < n := hi ▸ Nat.mod_lt _ hsz.pos
    have hes := hsz.header_le
    have hoff := le_slot es i
    simp only [writtenPart, hfd', Sys.setFile_inodes_self, h.entrySize]
    refine ⟨?_, ?_, hd.stored.push hlt (fun j c hj hc => ?_) ?_⟩
    · rw [File.size_write_of_le, hd.size]
      rw [hd.size, CString.length_withNul]
      exact slot_add_le hin hfit
    · rw [File.slice_write_of_disjoint _ (.inl (by omega)), hd.header]
    · exact hc.write_other (hi ▸ hj) (by rwa [CString.length_withNul])
    · rw [← hi]
      exact stored_write_self _ _ hfit
  state fd hfd := by
    have hfd' : st.q.fd = some fd := hfd
    have hes := hsz.header_le
    have hoff := le_slot es i
    simp only [writtenPart, hfd', Sys.setFile_inodes_self, h.entrySize]
    rw [File.slice_write_of_disjoint _ (.inl (by omega)), h.state fd hfd']
  somewhere := by
    have := h.somewhere
    simpa [Queue.appended] using this

/-- `q_append` up to the state, on a queue that has room: the entry is written, or a part of it. -/
theorem qAppendNoSync_spec {g : Prop} {hd ln : Nat} (hg : g → st.sys.Succeeds) (hsz : Sizes n es)
    (h : InvAt path n es hd ln st held) (hlt : held.length < n)
    (hfit : data.strlen + 1 ≤ es) (hi : i = (st.q.queueHead + held.length) % n) :
    Triple (· = st) (qAppendNoSyncFhState data)
      (fun _ st' => InvAt path n es hd ln st' (held ++ [data]) ∧ st'.q = st.q.appended i data ∧
        (writtenPart st i data.withNul).Later st'.sys)
      (fun e st' => (∃ buf, buf.length ≤ es ∧ (writtenPart st i buf).Later st'.sys) ∧
        Stopped g e) := by
  have hin : i < n := hi ▸ Nat.mod_lt _ hsz.pos
  refine (qAppendNoSyncFhState_spec hg data (i := i) ?_).weaken ?_ ?_
  · rw [h.length, h.numEntries, hi]
  · rintro _ ⟨s', q'⟩ ⟨hl, hq⟩
    obtain rfl : q' = st.q.appended i data := hq
    exact ⟨(h.append hsz hlt data hfit hi).later hl, rfl, hl⟩
  · rintro e st' ⟨⟨⟨buf, hl, hbuf⟩, -⟩, he⟩
    refine ⟨⟨buf, ?_, hl⟩, fun hout => h.not_beyond hin (he.beyond hout), fun hgo => ?_⟩
    · rcases hbuf with rfl | ⟨-, hle, -⟩
      · exact Nat.zero_le _
      · exact hle.trans hfit
    · obtain ⟨mem, hm, hno⟩ := he.room hgo (by rw [h.length, h.numEntries]; exact hlt.ne)
        (by rwa [h.entrySize])
      rw [(h.memory mem hm).allocated, hi, (h.memory mem hm).free.tail hlt] at hno
      exact hno.elim (fun hle => absurd (hi ▸ hin) (not_lt.2 hle)) fun hne => hne rfl

theorem qAppend_full (h : Inv path n es st held) (hfull : held.length = n) (data : CString) :
    qAppend data st = .error (.errno .enospc) st := by
  rw [qAppend]
  refine bind_error ?_
  rw [qAppendNoSyncFhState, get_bind]
  simp only [h.length, h.numEntries, hfull, if_true]
  rfl

theorem qAppend_tooLong (h : Inv path n es st held) (hlt : held.length ≠ n)
    (hlong : es < data.strlen + 1) : qAppend data st = .error (.errno .einval) st := by
  rw [qAppend]
  refine bind_error ?_
  rw [qAppendNoSyncFhState, get_bind]
  simp only [h.length, h.numEntries, h.entrySize, if_neg hlt, gt_iff_lt, if_pos hlong]
  rfl

theorem qAppend_ok (hsz : Sizes n es) (hs : st.sys.Succeeds) (h : Inv path n es st held)
    (hlt : held.length ≠ n) (hfit : ¬ es < data.strlen + 1) :
    ∃ st', qAppend data st = .ok () st' ∧ st'.sys.Succeeds ∧ st'.q.fd = st.q.fd ∧
      Inv path n es st' (held ++ [data]) := by
  have hspec : Triple (· = st) (qAppend data) (fun _ st' => st'.sys.Succeeds ∧ st'.q.fd = st.q.fd ∧
      Inv path n es st' (held ++ [data])) fun _ _ => False := by
    refine .bind ((qAppendNoSync_spec (fun _ : True => hs) hsz h
      (lt_of_le_of_ne h.length_le hlt) (not_lt.1 hfit) rfl).err fun _ _ he => he.2.2 trivial) fun _ => ?_
    rintro st₁ ⟨hinv, hq, hl⟩
    refine (syncFhState_inv hsz (hl.succeeds (writtenPart_succeeds hs _ _)) hinv).post ?_ st₁ rfl
    rintro _ st' ⟨hs', hfd, hinv'⟩
    exact ⟨hs', hfd.trans (by rw [hq]; rfl), hinv'⟩
  obtain ⟨⟨⟩, st', hok⟩ := hspec.total rfl
  exact ⟨st', hok⟩

/-! ## `q_drop_head` -/

/-- The queue once its head is gone: the array and the numbers say so, the header does not yet. -/
theorem InvAt.dropHead (h : Inv path n es st (c :: held)) :
    InvAt path n es st.q.queueHead (c :: held).length { st with q := st.q.dropped } held := by
  have hnext : st.q.dropped.queueHead = next n st.q.queueHead := by
    rw [Queue.dropped, h.numEntries, Ring.next]
  have hlt : held.length < n := h.length_le
  exact
    { numEntries := h.numEntries
      entrySize := h.entrySize
      head_lt := by
        rw [hnext]
        exact next_lt h.head_lt
      length := by
        have := h.length
        simp [length_cons, Queue.dropped, this]
      length_le := hlt.le
      memory := fun mem hm => by
        obtain ⟨mem0, hm0, rfl⟩ := map_eq_some_iff.mp hm
        have hmem := h.memory mem0 hm0
        rw [hnext]
        refine ⟨hmem.allocated, hmem.cached.pop h.head_lt hlt fun j b hj hb => ?_,
          hmem.free.pop h.head_lt (Memory.put_entry_self _ _ _) fun j hj hnone => ?_⟩
        · rw [Cached, Memory.put_entry_ne _ _ hj]
          exact hb
        · rw [Memory.put_entry_ne _ _ hj]
          exact hnone
      named := h.named
      disk := fun fd hfd => by
        have hd := h.disk fd hfd
        rw [hnext]
        exact ⟨hd.size, hd.header, hd.stored.pop h.head_lt hlt fun _ _ _ hb => hb⟩
      state := h.state
      somewhere := by
        have := h.somewhere
        simpa [Queue.dropped] using this }

theorem qDropHead_empty (h : Inv path n es st []) : qDropHead st = .error (.errno .einval) st := by
  rw [qDropHead]
  refine bind_error ?_
  rw [qDropHeadMemoryOnly, get_bind, if_pos (show st.q.queueLength = 0 from h.length)]
  rfl

/-- `q_drop_head` up to the state, on a queue that is not empty. -/
theorem InvAt.qDropHeadMemoryOnly (h : Inv path n es st (c :: held)) :
    Triple (· = st) qDropHeadMemoryOnly (fun _ st' => st' = { st with q := st.q.dropped })
      (fun _ _ => False) := by
  refine qDropHeadMemoryOnly_spec.weaken (fun _ _ hs => hs.1) ?_
  rintro e st' ⟨-, -, -, h0 | hbeyond⟩
  · rw [h.length] at h0
    cases h0
  · exact h.not_beyond h.head_lt hbeyond

theorem qDropHead_ok (hsz : Sizes n es) (hs : st.sys.Succeeds) (h : Inv path n es st (c :: held)) :
    ∃ st', qDropHead st = .ok () st' ∧ st'.sys.Succeeds ∧ st'.q.fd = st.q.fd ∧
      Inv path n es st' held := by
  obtain ⟨⟨⟩, st', hok⟩ := ((InvAt.qDropHeadMemoryOnly h).bind fun _ =>
    syncFhState_inv hsz (by exact hs) (InvAt.dropHead h)).total rfl
  exact ⟨st', hok⟩

/-! ## `q_peek` -/

/-- The slot of the oldest string, read whole: the string, its NUL, and stale bytes. -/
theorem OnDisk.slice_front {f : File} (h : OnDisk n es head (c :: held) f) (hh : head < n) :
    ∃ stale, f.slice ((head + 1) * es) es = c.withNul ++ stale := by
  obtain ⟨hfit, hslice⟩ := h.stored.front hh
  refine ⟨f.slice ((head + 1) * es + (c.strlen + 1)) (es - (c.strlen + 1)), ?_⟩
  rw [← hslice, ← File.slice_append, Nat.add_sub_cancel' hfit]

theorem InvAt.remember (h : Inv path n es st (c :: held)) :
    Inv path n es { st with q := remembered st.q c } (c :: held) where
  __ := h
  memory mem hm := by
    obtain ⟨mem0, hm0, rfl⟩ := map_eq_some_iff.mp hm
    have hmem := h.memory mem0 hm0
    have hhead : (st.q.queueHead + 0) % n = st.q.queueHead := Nat.mod_eq_of_lt h.head_lt
    show InMemory st.q.fd.isSome n st.q.queueHead _ _
    refine ⟨hmem.allocated, fun k b hk => ?_, fun j hj hout => ?_⟩
    · have hkn : k < n := (List.getElem?_eq_some_iff.mp hk).1.trans_le h.length_le
      cases k with
      | zero =>
        obtain rfl : c = b := by simpa using hk
        left
        rw [hhead, Memory.put_entry_self]
      | succ k =>
        have hne : (st.q.queueHead + (k + 1)) % n ≠ st.q.queueHead := by
          intro he
          exact slot_ne _ hkn (Nat.zero_lt_of_lt hkn) (Nat.succ_ne_zero k) (he.trans hhead.symm)
        rw [Cached, Memory.put_entry_ne _ _ hne]
        exact hmem.cached _ _ hk
    · have hne : j ≠ st.q.queueHead := fun he => hout 0 (by simp) (hhead.trans he.symm)
      beta_reduce
      rw [Memory.put_entry_ne _ _ hne]
      exact hmem.free j hj hout
  somewhere := by
    have := h.somewhere
    simpa [remembered] using this

theorem qPeekFile_ok (hs : st.sys.Succeeds)
    (h : Inv path n es st (c :: held)) {fd : Nat} (hfd : st.q.fd = some fd) :
    ∃ st', qPeekFile fd st = .ok c.withNul st' ∧ st'.sys.Succeeds ∧ st'.q.fd = st.q.fd ∧
      Inv path n es st' (c :: held) := by
  have hd := h.disk fd hfd
  obtain ⟨stale, hslice⟩ := hd.slice_front h.head_lt
  have hspec := qPeekFile_spec (fun _ : True => hs) c stale
    (by rw [entryOffset, h.entrySize, hd.size]; exact slot_add_le h.head_lt le_rfl)
    (by rw [entryOffset, h.entrySize, hslice])
  obtain ⟨b, ⟨s', q'⟩, hok, ⟨hl, hq⟩, rfl⟩ := (hspec.err fun _ _ he => he.2.2 trivial).total rfl
  have hinv : Inv path n es ⟨s', st.q⟩ (c :: held) := InvAt.later h hl
  rcases hq with hq | hq
  · obtain rfl : q' = st.q := hq
    exact ⟨_, hok, hl.succeeds hs, rfl, hinv⟩
  · obtain rfl : q' = remembered st.q c := hq
    exact ⟨_, hok, hl.succeeds hs, rfl, InvAt.remember hinv⟩

theorem qPeek_empty (h : Inv path n es st []) (size : Nat) : qPeek size st = .ok ⟨0, []⟩ st := by
  rw [qPeek, get_bind, if_pos (show st.q.queueLength = 0 from h.length)]
  rfl

/-- Up to handing the string over, `q_peek` finds the oldest string, in memory or in the file. -/
theorem qPeek_cons (hs : st.sys.Succeeds) (h : Inv path n es st (c :: held))
    (size : Nat) : ∃ st', qPeek size st = qPeekCopy c.withNul size st' ∧ st'.sys.Succeeds ∧
      st'.q.fd = st.q.fd ∧ Inv path n es st' (c :: held) := by
  have hlen : st.q.queueLength ≠ 0 := by rw [h.length]; simp
  rw [qPeek, get_bind, if_neg hlen, if_neg (h.not_beyond h.head_lt)]
  cases hm : st.q.memory.bind (·.entry st.q.queueHead) with
  | some copy =>
    obtain ⟨mem, hmem, hentry⟩ := bind_eq_some_iff.mp hm
    have hcopy : copy = c.withNul := by
      rcases (h.memory mem hmem).cached.front h.head_lt with hc | ⟨hc, -⟩
      · exact some_inj.mp (hentry.symm.trans hc)
      · rw [hentry] at hc
        exact absurd hc (by simp)
    refine ⟨st, ?_, hs, rfl, h⟩
    dsimp only
    rw [hcopy, cstr_withNul]
  | none =>
    have hsome : st.q.fd.isSome = true := by
      cases hq : st.q.memory with
      | none => exact h.somewhere.resolve_left (by simp [hq])
      | some mem =>
        rcases (h.memory mem hq).cached.front h.head_lt with hc | ⟨-, hc⟩
        · rw [hq, bind_some, hc] at hm
          exact absurd hm (by simp)
        · exact hc
    obtain ⟨fd, hfd⟩ := isSome_iff_exists.mp hsome
    obtain ⟨st', hp, hs', hq', hinv⟩ := qPeekFile_ok hs h hfd
    refine ⟨st', ?_, hs', hq', hinv⟩
    rw [hfd]
    exact bind_ok hp

end Ops

end LibAudit.Spool
