import Mathlib.Data.List.GetD
import LibAudit.Lib.Word
import LibAudit.Lib.CString

/-!
# Files and system calls under the spool queue

`audisp/plugins/remote/queue.c` keeps a queue in a file through `pread` and `pwrite`.  This file
is what those calls act on.

* `File` is a regular file: a size and its bytes, with nothing but zeros past the end.
* `Sys` is what the process sees of the outside: inodes, names, and a schedule `calls` that
  says how each system call (and each `malloc`) in turn comes out.  `Outcome.done n` is success,
  where a read or write moves at most `n` bytes; `Outcome.fail e` is failure with `errno` set to
  `e`; `Outcome.killed` means that the process dies before the call takes effect.
* `fullPread` and `fullPwrite` are the source's loops over partial reads and writes.
-/

namespace LibAudit.Spool

open List

/-! ## Errors -/

/-- The `errno` values `queue.c` sets or tests for; the rest are `other`. -/
inductive Errno
  | einval | enospc | eio | enxio | erange | ebadmsg | ebusy | eacces | eagain | enoent | eexist
  | other (code : Nat)
  deriving DecidableEq, Repr

/-- Why a function does not return normally: it returned an error, the process died in it, or it has
used an array beyond its end. -/
inductive Fault
  | errno (e : Errno)
  | killed
  | outOfBounds
  deriving DecidableEq, Repr

/-- How one system call comes out. -/
inductive Outcome
  | done (n : Nat)
  | fail (e : Errno)
  | killed
  deriving DecidableEq, Repr

/-! ## Files -/

/-- A regular file.  Bytes past the end read as zero once the file grows over them. -/
@[ext]
structure File where
  /-- `st_size`. -/
  size : Nat
  /-- The byte at each offset. -/
  byte : Nat → UInt8
  /-- Nothing is stored past the end. -/
  zero_beyond : ∀ i, size ≤ i → byte i = 0

/-- A file as `open` with `O_CREAT` makes it. -/
def File.empty : File := ⟨0, fun _ => 0, fun _ _ => rfl⟩

/-- `len` bytes from `off` on. -/
def File.slice (f : File) (off len : Nat) : Bytes := (List.range len).map fun i => f.byte (off + i)

/-- Overwrite the bytes from `off` on with `buf`, growing the file if it has to. -/
def File.write (f : File) (buf : Bytes) (off : Nat) : File where
  size := if buf = [] then f.size else max f.size (off + buf.length)
  byte i := if off ≤ i ∧ i < off + buf.length then buf.getD (i - off) 0 else f.byte i
  zero_beyond i hi := by
    have hsize : f.size ≤ i := by
      split at hi
      · exact hi
      · omega
    rw [if_neg, f.zero_beyond i hsize]
    rintro ⟨h1, h2⟩
    split at hi
    · simp_all; omega
    · omega

/-- `posix_fallocate (fd, 0, len)`: the file is at least `len` bytes long afterwards. -/
def File.fallocate (f : File) (len : Nat) : File where
  size := max f.size len
  byte := f.byte
  zero_beyond i hi := f.zero_beyond i (by omega)

@[simp] theorem File.length_slice (f : File) (off len : Nat) : (f.slice off len).length = len := by
  simp [File.slice]

variable {buf : Bytes} {off : Nat}

theorem File.byte_write_of_mem (f : File) {i : Nat} (h1 : off ≤ i)
    (h2 : i < off + buf.length) : (f.write buf off).byte i = buf.getD (i - off) 0 :=
  if_pos ⟨h1, h2⟩

theorem File.byte_write_of_notMem (f : File) {i : Nat}
    (h : i < off ∨ off + buf.length ≤ i) : (f.write buf off).byte i = f.byte i :=
  if_neg (by omega)

@[simp] theorem File.write_nil (f : File) (off : Nat) : f.write [] off = f := by
  refine File.ext (by simp [File.write]) (funext fun i => ?_)
  rw [f.byte_write_of_notMem (by simp; omega)]

theorem File.write_write (f : File) (a b : Bytes) (off : Nat) :
    (f.write a off).write b (off + a.length) = f.write (a ++ b) off := by
  refine File.ext ?_ (funext fun i => ?_)
  · by_cases ha : a = []
    · simp [File.write, ha]
    · by_cases hb : b = []
      · simp [File.write, ha, hb]
      · simp [File.write, ha, hb]
        omega
  · rcases Nat.lt_or_ge i off with h | h
    · rw [File.byte_write_of_notMem _ (by omega), File.byte_write_of_notMem _ (by omega),
        File.byte_write_of_notMem _ (by omega)]
    · rcases Nat.lt_or_ge i (off + a.length) with ha | ha
      · rw [File.byte_write_of_notMem _ (by omega), File.byte_write_of_mem _ h ha,
          File.byte_write_of_mem _ h (by simp; omega), getD_append _ _ _ _ (by omega)]
      · rcases Nat.lt_or_ge i (off + a.length + b.length) with hb | hb
        · rw [File.byte_write_of_mem _ ha hb, File.byte_write_of_mem _ h (by simp; omega),
            getD_append_right _ _ _ _ (by omega), Nat.sub_sub]
        · rw [File.byte_write_of_notMem _ (by omega), File.byte_write_of_notMem _ (by omega),
            File.byte_write_of_notMem _ (by simp; omega)]

theorem File.slice_write_self (f : File) (buf : Bytes) (off : Nat) :
    (f.write buf off).slice off buf.length = buf := by
  refine ext_getElem (by simp) fun i h1 h2 => ?_
  simp only [File.slice, getElem_map, getElem_range]
  rw [File.byte_write_of_mem _ (by omega) (by omega), Nat.add_sub_cancel_left]
  exact getD_eq_getElem _ _ h2

theorem File.slice_write_of_disjoint (f : File) {o len : Nat}
    (h : o + len ≤ off ∨ off + buf.length ≤ o) : (f.write buf off).slice o len = f.slice o len := by
  refine map_congr_left fun i hi => ?_
  rw [mem_range] at hi
  exact File.byte_write_of_notMem _ (by omega)

theorem File.slice_append (f : File) (off a b : Nat) :
    f.slice off (a + b) = f.slice off a ++ f.slice (off + a) b := by
  simp [File.slice, range_add, Nat.add_assoc, Function.comp_def]

theorem File.size_write_of_le (f : File)
    (h : off + buf.length ≤ f.size) : (f.write buf off).size = f.size := by
  show (if buf = [] then f.size else max f.size (off + buf.length)) = f.size
  split
  · rfl
  · omega

/-! ## The system -/

/-- What lies outside the process. -/
structure Sys where
  /-- The files, by inode number. -/
  inodes : Nat → File
  /-- The names that exist. -/
  names : String → Option Nat
  /-- The inode number the next new file gets. -/
  nextIno : Nat
  /-- How the calls come out, in the order they are made. -/
  calls : Nat → Outcome
  /-- How many calls have been made. -/
  tick : Nat

/-- A computation that makes system calls. -/
abbrev SysM := EStateM Fault Sys

/-- The system with the file `ino` replaced. -/
def Sys.setFile (s : Sys) (ino : Nat) (f : File) : Sys :=
  { s with inodes := fun j => if j = ino then f else s.inodes j }

@[simp] theorem Sys.setFile_inodes_self (s : Sys) (ino : Nat) (f : File) :
    (s.setFile ino f).inodes ino = f := if_pos rfl

/-- Return `-1` with `errno` set to `e`. -/
def failWith {σ α : Type} (e : Errno) : EStateM Fault σ α := throw (.errno e)

/-- Make one system call, and say what it returned. -/
def call : SysM Nat := fun s =>
  match s.calls s.tick with
  | .done n => .ok n { s with tick := s.tick + 1 }
  | .fail e => .error (.errno e) { s with tick := s.tick + 1 }
  | .killed => .error .killed s

/-- Make one call whose failure the source ignores; says whether it succeeded. -/
def callIgnored : SysM Bool := fun s =>
  match call s with
  | .ok _ s' => .ok true s'
  | .error (.errno _) s' => .ok false s'
  | .error e s' => .error e s'

/-- `SSIZE_MAX` on the 64-bit systems the package is built for. -/
def ssizeMax : Nat := 2 ^ 63 - 1

/-- `pread (fd, buf, count, offset)`: at most what is left of the file. -/
def pread (fd count off : Nat) : SysM Bytes := do
  let n ← call
  let s ← get
  let f := s.inodes fd
  return f.slice off (min n (min count (f.size - off)))

/-- `pwrite (fd, buf, count, offset)`; returns how many bytes were taken. -/
def pwrite (fd : Nat) (buf : Bytes) (off : Nat) : SysM Nat := do
  let n ← call
  let k := min n buf.length
  modify fun s => s.setFile fd ((s.inodes fd).write (buf.take k) off)
  return k

/-- The loop of `full_pread`.  Every round moves at least one byte, so `fuel` is never short when
it starts as the number of bytes asked for. -/
def fullPreadLoop (fd : Nat) : Nat → Nat → Nat → Bytes → SysM Bytes
  | 0, _, _, buf => pure buf
  | fuel + 1, size, off, buf =>
    if size = 0 then pure buf
    else do
      let res ← pread fd (min size ssizeMax) off
      if res.length = 0 then failWith .enxio
      else fullPreadLoop fd fuel (size - res.length) (off + res.length) (buf ++ res)

/-- Like `pread`, except that it handles partial reads. -/
def fullPread (fd size off : Nat) : SysM Bytes := fullPreadLoop fd size size off []

/-- The loop of `full_pwrite`, with `fuel` as in `fullPreadLoop`. -/
def fullPwriteLoop (fd : Nat) : Nat → Bytes → Nat → SysM Unit
  | 0, _, _ => pure ()
  | fuel + 1, buf, off =>
    if buf.length = 0 then pure ()
    else do
      let res ← pwrite fd (buf.take ssizeMax) off
      if res = 0 then failWith .enxio
      else fullPwriteLoop fd fuel (buf.drop res) (off + res)

/-- Like `pwrite`, except that it handles partial writes. -/
def fullPwrite (fd : Nat) (buf : Bytes) (off : Nat) : SysM Unit :=
  fullPwriteLoop fd buf.length buf off

/-! ## When the calls succeed -/

/-- From here on no call fails, and a read or write that has anything to move moves something. -/
def Sys.Succeeds (s : Sys) : Prop := ∀ t, s.tick ≤ t → ∃ n, 0 < n ∧ s.calls t = .done n

/-- `s'` is `s` some calls later, with nothing else changed. -/
def Sys.Later (s s' : Sys) : Prop := ∃ t, s.tick ≤ t ∧ s' = { s with tick := t }

theorem Sys.Later.refl (s : Sys) : s.Later s := ⟨s.tick, le_rfl, rfl⟩

variable {s s' : Sys}

namespace Sys

theorem Later.trans {s'' : Sys} (h : s.Later s') (h' : s'.Later s'') : s.Later s'' := by
  obtain ⟨t, ht, rfl⟩ := h
  obtain ⟨t', ht', rfl⟩ := h'
  exact ⟨t', ht.trans ht', rfl⟩

theorem Later.succeeds (h : s.Later s') (hs : s.Succeeds) : s'.Succeeds := by
  obtain ⟨t, ht, rfl⟩ := h
  exact fun u hu => hs u (ht.trans hu)

theorem Later.inodes (h : s.Later s') : s'.inodes = s.inodes := by
  obtain ⟨t, -, rfl⟩ := h
  rfl

theorem Later.names (h : s.Later s') : s'.names = s.names := by
  obtain ⟨t, -, rfl⟩ := h
  rfl

theorem Later.calls (h : s.Later s') : s'.calls = s.calls := by
  obtain ⟨t, -, rfl⟩ := h
  rfl

theorem Later.nextIno (h : s.Later s') : s'.nextIno = s.nextIno := by
  obtain ⟨t, -, rfl⟩ := h
  rfl

theorem Later.setFile (h : s.Later s') (ino : Nat) (f : File) :
    (s.setFile ino f).Later (s'.setFile ino f) := by
  obtain ⟨t, ht, rfl⟩ := h
  exact ⟨t, ht, rfl⟩

theorem Succeeds.setFile (h : s.Succeeds) (ino : Nat) (f : File) : (s.setFile ino f).Succeeds := h

theorem setFile_setFile (s : Sys) (ino : Nat) (f g : File) :
    (s.setFile ino f).setFile ino g = s.setFile ino g := by
  simp only [Sys.setFile, Sys.mk.injEq, and_true, and_self]
  funext j
  split <;> rfl

theorem setFile_self (s : Sys) (ino : Nat) : s.setFile ino (s.inodes ino) = s := by
  obtain ⟨inodes, names, nextIno, calls, tick⟩ := s
  simp only [Sys.setFile, Sys.mk.injEq, and_true]
  funext j
  split
  · rename_i h
    rw [h]
  · rfl

end Sys

/-- One step of a computation that went well. -/
theorem bind_ok {σ α β : Type} {x : EStateM Fault σ α} {f : α → EStateM Fault σ β} {s s' : σ}
    {a : α} (h : x s = .ok a s') : (x >>= f) s = f a s' := by
  show EStateM.bind x f s = _
  simp only [EStateM.bind, h]

theorem bind_error {σ α β : Type} {x : EStateM Fault σ α} {f : α → EStateM Fault σ β} {s s' : σ}
    {e : Fault} (h : x s = .error e s') : (x >>= f) s = .error e s' := by
  show EStateM.bind x f s = _
  simp only [EStateM.bind, h]

end LibAudit.Spool
