import LibAudit.Spool.File

/-!
# The spool queue of `audisp-remote`

The functions of `audisp/plugins/remote/queue.c`, translated one by one.  A queue lives in memory,
in a file, or in both; the file is a header of `sizeof (struct file_header)` bytes in the first
slot and `num_entries` slots of `entry_size` bytes behind it.

The functions that work on an open queue run over `St`, the system together with the
`struct queue`: a function that returns `-1` may have changed the structure before it failed, and
this way the change is still there afterwards.  `qOpen` and its helpers have no queue yet, or two
of them, and run over `Sys`.

`size_t` and `uintmax_t` are 64 bits wide and `unsigned int` 32, as on the systems the package is
built for; where the source computes in 32 bits so does the model.
-/

namespace LibAudit.Spool

open Word

/-- `Q_IN_MEMORY`, `Q_IN_FILE`, `Q_CREAT`, `Q_EXCL`, `Q_SYNC` and `Q_RESIZE`. -/
structure Flags where
  inMemory : Bool
  inFile : Bool
  creat : Bool
  excl : Bool
  sync : Bool
  resize : Bool
  deriving DecidableEq, Repr

/-- The array `memory` points at: how many entries were allocated, and what they hold. -/
structure Memory where
  /-- The number of entries the array was allocated with. -/
  allocated : Nat
  /-- The copy of each queue entry, NUL included, where there is one. -/
  entry : Nat → Option Bytes

/-- `struct queue`.  The file descriptor stands for the inode it was opened on. -/
structure Queue where
  flags : Flags
  fd : Option Nat
  memory : Option Memory
  numEntries : Nat
  entrySize : Nat
  queueHead : Nat
  queueLength : Nat

/-- Slot `i` lies behind the cache array.  The array has the number of entries that `q_open` was asked
for, which is not the number of entries of a file that is about to be resized. -/
def Queue.Beyond (q : Queue) (i : Nat) : Prop := ∃ mem ∈ q.memory, mem.allocated ≤ i

instance (q : Queue) (i : Nat) : Decidable (q.Beyond i) :=
  match h : q.memory with
  | none => isFalse fun ⟨mem, hmem, _⟩ => by simp [h] at hmem
  | some mem =>
    if hle : mem.allocated ≤ i then isTrue ⟨mem, h, hle⟩
    else isFalse fun ⟨mem', hmem, hle'⟩ => hle (Option.some_inj.mp (h.symm.trans hmem) ▸ hle')

/-- The system and the queue a function works on. -/
structure St where
  sys : Sys
  q : Queue

/-- A computation on an open queue. -/
abbrev QM := EStateM Fault St

/-- Run a computation on the system alone. -/
def liftSys {α : Type} (m : SysM α) : QM α := fun st =>
  match m st.sys with
  | .ok a s => .ok a { st with sys := s }
  | .error e s => .error e { st with sys := s }

/-- Run a computation on the queue `q`; its changes to the queue come back with the result. -/
def onQueue {α : Type} (q : Queue) (m : QM α) : SysM (α × Queue) := fun s =>
  match m ⟨s, q⟩ with
  | .ok a st => .ok (a, st.q) st.sys
  | .error e st => .error e st.sys

/-! ## The file format -/

/-- `fh_magic`: a NUL and `audisp-remote`. -/
def fhMagic : Bytes := [0, 97, 117, 100, 105, 115, 112, 45, 114, 101, 109, 111, 116, 101]

/-- `FH_VERSION_0`. -/
def fhVersion0 : UInt8 := 0

/-- `sizeof (struct file_header)`. -/
def sizeofFileHeader : Nat := 32

/-- `offsetof (struct file_header, s)`. -/
def offsetofFhState : Nat := 24

/-- `struct fh_state`, in network byte order. -/
def fhState (queueHead queueLength : Nat) : Bytes := bytesBE 4 queueHead ++ bytesBE 4 queueLength

/-- `struct file_header`, in network byte order. -/
def fileHeader (numEntries entrySize queueHead queueLength : Nat) : Bytes :=
  fhMagic ++ [fhVersion0, 0] ++ bytesBE 4 numEntries ++ bytesBE 4 entrySize ++
    fhState queueHead queueLength

/-- Return file position for ENTRY in Q. -/
def entryOffset (q : Queue) (entry : Nat) : Nat := (entry + 1) * q.entrySize

/-- Synchronize Q if required. -/
def qSync : QM Unit := do
  let st ← get
  if st.q.flags.sync then liftSys (discard call) else pure ()

/-- Sync the file's `fh_state` with Q, then `q_sync (Q)`. -/
def syncFhState : QM Unit := do
  let st ← get
  match st.q.fd with
  | none => pure ()
  | some fd =>
    liftSys (fullPwrite fd (fhState st.q.queueHead st.q.queueLength) offsetofFhState)
    qSync

/-! ## Appending, peeking, dropping -/

/-- Allocate the copy that goes into slot `entryIndex` of the cache array, if there is one. -/
def copyForMemory (entryIndex : Nat) : QM Unit := do
  let st ← get
  match st.q.memory with
  | some mem =>
    if mem.allocated ≤ entryIndex then throw .outOfBounds
    else if (mem.entry entryIndex).isSome then failWith .eio
    else liftSys (discard call)
  | none => pure ()

/-- Write DATA into slot `entryIndex` of the file, if there is one. -/
def writeEntry (entryIndex : Nat) (data : CString) : QM Unit := do
  let st ← get
  match st.q.fd with
  | some fd => liftSys (fullPwrite fd data.withNul (entryOffset st.q entryIndex))
  | none => pure ()

/-- The cache array with the copy at `i` replaced. -/
def Memory.put (mem : Memory) (i : Nat) (copy : Option Bytes) : Memory :=
  { mem with entry := fun j => if j = i then copy else mem.entry j }

/-- Add DATA to Q, but don't update `fh_state`.  The copy is allocated before the file is written,
so that running out of memory leaves no trace there. -/
def qAppendNoSyncFhState (data : CString) : QM Unit := do
  let st ← get
  let q := st.q
  if q.queueLength = q.numEntries then failWith .enospc
  else if data.strlen + 1 > q.entrySize then failWith .einval
  else do
    let entryIndex := (q.queueHead + q.queueLength) % q.numEntries
    copyForMemory entryIndex
    writeEntry entryIndex data
    modify fun st => { st with q := { st.q with
      memory := st.q.memory.map fun mem => mem.put entryIndex (some data.withNul)
      queueLength := st.q.queueLength + 1 } }

/-- Add DATA to the tail of Q. -/
def qAppend (data : CString) : QM Unit := do
  qAppendNoSyncFhState data
  syncFhState

/-- What `q_peek` gives back: its return value, and what it stored into the caller's buffer. -/
structure Peek where
  ret : Int
  buf : Bytes
  deriving DecidableEq

/-- A `size_t` returned as an `int`. -/
def toInt (n : Nat) : Int := (n : Int).bmod (2 ^ 32)

/-- The last step of `q_peek`: hand `data` over, if the caller has room for it. -/
def qPeekCopy (data : Bytes) (size : Nat) : QM Peek :=
  if size < data.length then failWith .erange else pure ⟨toInt data.length, data⟩

/-- Keep a copy of the head of Q in memory, if Q is kept there and there is room for it. -/
def rememberHead (data : Bytes) : QM Unit := do
  let st ← get
  match st.q.memory with
  | none => pure ()
  | some _ => do
    let copied ← liftSys callIgnored
    if copied then
      modify fun st => { st with q := { st.q with
        memory := st.q.memory.map fun mem => mem.put st.q.queueHead (some data) } }
    else pure ()

/-- Read the head of Q from the file. -/
def qPeekFile (fd : Nat) : QM Bytes := do
  let st ← get
  let buffer ← liftSys (fullPread fd st.q.entrySize (entryOffset st.q st.q.queueHead))
  if 0 ∉ buffer then failWith .ebadmsg
  else do
    rememberHead (cstr buffer).withNul
    pure (cstr buffer).withNul

/-- Peek at the head of Q, storing it into a buffer of SIZE bytes. -/
def qPeek (size : Nat) : QM Peek := do
  let st ← get
  let q := st.q
  if q.queueLength = 0 then pure ⟨0, []⟩
  else if q.Beyond q.queueHead then throw .outOfBounds
  else
    match q.memory.bind (·.entry q.queueHead), q.fd with
    | some copy, _ => qPeekCopy (cstr copy).withNul size
    | none, some fd => do
      let data ← qPeekFile fd
      qPeekCopy data size
    | none, none => failWith .eio

/-- Drop the head of Q, but don't write this into the file. -/
def qDropHeadMemoryOnly : QM Unit := do
  let st ← get
  let q := st.q
  if q.queueLength = 0 then failWith .einval
  else if q.Beyond q.queueHead then throw .outOfBounds
  else
    modify fun st => { st with q := { q with
      memory := q.memory.map fun mem => mem.put q.queueHead none
      queueHead := if q.queueHead + 1 = q.numEntries then 0 else q.queueHead + 1
      queueLength := q.queueLength - 1 } }

/-- Drop the head of Q. -/
def qDropHead : QM Unit := do
  qDropHeadMemoryOnly
  syncFhState

/-- Return the number of entries in Q. -/
def qQueueLength (q : Queue) : Nat := q.queueLength

/-! ## Opening -/

/-- `open (path, O_RDWR | ..)`. -/
def openFile (path : String) (creat excl : Bool) : SysM Nat := do
  let _ ← call
  let s ← get
  match s.names path with
  | some ino => if creat && excl then failWith .eexist else pure ino
  | none =>
    if creat then do
      modify fun s => { s with
        inodes := fun j => if j = s.nextIno then File.empty else s.inodes j
        names := fun p => if p = path then some s.nextIno else s.names p
        nextIno := s.nextIno + 1 }
      pure s.nextIno
    else failWith .enoent

/-- Turn the errors of `m` into those of `f`; a process that died stays dead. -/
def mapErrno {α : Type} (f : Errno → Errno) (m : SysM α) : SysM α := fun s =>
  match m s with
  | .error (.errno e) s' => .error (.errno (f e)) s'
  | r => r

/-- `lockf (fd, F_TLOCK, 0)`, with a lock held elsewhere reported as `EBUSY`. -/
def tryLock : SysM Unit :=
  discard (mapErrno (fun e => if e = .eacces ∨ e = .eagain then .ebusy else e) call)

/-- `SIZE_MAX`. -/
def sizeMax : Nat := 2 ^ 64 - 1

/-- `UINT32_MAX`. -/
def uint32Max : Nat := 2 ^ 32 - 1

/-- The header of a new queue file, and the space for its entries. -/
def qCreateFile (q : Queue) (fd : Nat) : SysM Bytes := do
  let fh := fileHeader q.numEntries q.entrySize 0 0
  fullPwrite fd fh 0
  (if q.flags.sync then discard call else pure ())
  discard call
  modify fun s => s.setFile fd
    ((s.inodes fd).fallocate ((q.numEntries + 1) * q.entrySize % 2 ^ 64))
  pure fh

/-- The test `q_open_file` makes on the header of an existing file of `stSize` bytes.  The sum
`file_entries + 1` is one of 32-bit numbers. -/
def headerFits (fh : Bytes) (entrySize stSize : Nat) : Bool :=
  let fileEntries := ofBytesBE ((fh.drop 16).take 4)
  fh.take 14 == fhMagic && fh.getD 14 0 == fhVersion0 && fh.getD 15 0 == 0 &&
    (fh.drop 20).take 4 == bytesBE 4 entrySize &&
    !(decide (fileEntries > sizeMax / entrySize - 1) ||
      decide (stSize ≠ (fileEntries + 1) % 2 ^ 32 * entrySize % 2 ^ 64))

/-- The header of the file `fd` of `stSize` bytes, which is written first if the file is new. -/
def qFileHeader (q : Queue) (fd stSize : Nat) : SysM Bytes :=
  if stSize = 0 then qCreateFile q fd
  else do
    let fh ← fullPread fd sizeofFileHeader 0
    if headerFits fh q.entrySize stSize then pure fh else failWith .einval

/-- Take the state of Q over from the header.  Note that this may change `q->num_entries`! -/
def qFromHeader (q : Queue) (fd : Nat) (fh : Bytes) : SysM Queue :=
  let numEntries := ofBytesBE ((fh.drop 16).take 4)
  let queueHead := ofBytesBE ((fh.drop 24).take 4)
  let queueLength := ofBytesBE ((fh.drop 28).take 4)
  if queueHead ≥ numEntries ∨ queueLength > numEntries then failWith .einval
  else pure { q with fd := some fd, numEntries, queueHead, queueLength }

/-- Open PATH for Q, and update Q from it.  The first two calls after `open` are the `fcntl`s
that set `FD_CLOEXEC`, the third is `fstat`. -/
def qOpenFile (q : Queue) (path : String) : SysM Queue := do
  let fd ← openFile path q.flags.creat q.flags.excl
  discard call
  discard call
  tryLock
  discard call
  let s ← get
  let fh ← qFileHeader q fd (s.inodes fd).size
  qFromHeader q fd fh

/-- `sizeof (struct queue)`. -/
def sizeofQueue : Nat := 48

/-- The arguments `q_open` accepts. -/
def argsOk (qFlags : Flags) (numEntries entrySize : Nat) : Bool :=
  (qFlags.inMemory || qFlags.inFile) &&
    !(numEntries == 0 || decide (numEntries > uint32Max) || decide (entrySize < 1) ||
      decide (entrySize < sizeofFileHeader) || decide (entrySize > uint32Max - sizeofQueue)) &&
    !(decide (entrySize > sizeMax) || decide (numEntries > sizeMax / entrySize - 1) ||
      decide (numEntries > sizeMax / 8))

/-- The cache array, all `NULL`, if the queue is to be kept in memory. -/
def allocMemory (qFlags : Flags) (numEntries : Nat) : SysM (Option Memory) :=
  if qFlags.inMemory then do
    discard call
    pure (some ⟨numEntries, fun _ => none⟩)
  else pure none

/-- Like `q_open`, but does not handle `Q_RESIZE`, and NUM_ENTRIES is only used when creating a
new file. -/
def qOpenNoResize (qFlags : Flags) (path : String) (numEntries entrySize : Nat) :
    SysM Queue := do
  if argsOk qFlags numEntries entrySize then do
    discard call
    let memory ← allocMemory qFlags numEntries
    let q : Queue := ⟨qFlags, none, memory, numEntries, entrySize, 0, 0⟩
    if qFlags.inFile then qOpenFile q path else pure q
  else failWith .einval

/-- Run `cleanup` when `m` fails, and fail with the same `errno`. -/
def onFailure {α : Type} (m : SysM α) (cleanup : SysM Unit) : SysM α := fun s =>
  match m s with
  | .error (.errno e) s' => (cleanup *> throw (.errno e)) s'
  | r => r

/-- `unlink (path)`; the source does not look at its result. -/
def unlink (path : String) : SysM Unit := do
  if ← callIgnored then
    modify fun s => { s with names := fun p => if p = path then none else s.names p }

/-- `mkstemp`: a new file under a name nobody has. -/
def mkstemp (path : String) : SysM String := do
  let n ← call
  let s ← get
  let tmpPath := path ++ toString n
  match s.names tmpPath with
  | some _ => failWith .eexist
  | none => do
    modify fun s => { s with
      inodes := fun j => if j = s.nextIno then File.empty else s.inodes j
      names := fun p => if p = tmpPath then some s.nextIno else s.names p
      nextIno := s.nextIno + 1 }
    pure tmpPath

/-- The copying loop of `q_open`: move every entry of `q` over to `q2`. -/
def qMoveAll (entrySize : Nat) : Nat → Queue → Queue → SysM Queue
  | 0, _, q2 => pure q2
  | fuel + 1, q, q2 => do
    let (peek, q) ← onQueue q (qPeek entrySize)
    if peek.ret = 0 then pure q2
    else if peek.ret < 0 then failWith (.other 0)
    else do
      let (_, q2) ← onQueue q2 (qAppendNoSyncFhState (cstr peek.buf))
      let (_, q) ← onQueue q qDropHeadMemoryOnly
      qMoveAll entrySize fuel q q2

/-- Open a queue using Q_FLAGS and return it. -/
def qOpen (qFlags : Flags) (path : String) (numEntries entrySize : Nat) : SysM Queue := do
  let q ← qOpenNoResize qFlags path numEntries entrySize
  if q.numEntries = numEntries then pure q
  else if !q.flags.resize then failWith .einval
  else if q.queueLength > numEntries then failWith .enospc
  else do
    -- the two mallocs of the copy buffer and of the temporary name
    discard call
    discard call
    let tmpPath ← mkstemp path
    onFailure (do
      discard call
      discard call
      modify fun s => { s with names := fun p => if p = tmpPath then none else s.names p }
      let q2 ← qOpenNoResize { qFlags with creat := true, excl := true } tmpPath numEntries
        entrySize
      if q2.numEntries ≠ numEntries then failWith .eio
      else do
        let q2 ← qMoveAll entrySize (q.queueLength + 1) q q2
        let (_, q2) ← onQueue q2 syncFhState
        discard call
        modify fun s => { s with
          names := fun p => if p = path then s.names tmpPath
            else if p = tmpPath then none else s.names p }
        pure q2) (unlink tmpPath)

end LibAudit.Spool
