import Mathlib.Data.List.Induction
import LibAudit.Lib.Memory

/-!
# The buffer of the parser: `data_buf.c`

A `DataBuf` is a block of memory with `len` bytes of interest from `offset` on.  Appending makes room
in one of three ways: if the bytes do not fit behind those that are there, these are moved to the
beginning of the block, unless `DATABUF_FLAG_PRESERVE_HEAD` says that everything is to stay in place; and
if that is not enough, the block is made larger.

What it is for is `ByteQueue`: all bytes that were ever appended, and how many of them were passed over.
Without the flag it is a queue of bytes.  With the flag it is one as long as `Tracker.Admits` the calls:
when the block is made larger what was passed over is forgotten, and so it is when the most bytes there
ever were are counted, which is what `databuf_reset` goes by.
-/

namespace LibAudit.Auparse

open Memory List

/-! ## The code -/

/-- `DataBuf`. -/
structure DataBuf where
  /-- `flags & DATABUF_FLAG_PRESERVE_HEAD`. -/
  preserveHead : Bool
  allocSize : Nat
  /-- What `alloc_ptr` points at, if it is not `NULL`. -/
  allocPtr : Option Bytes
  offset : Nat
  len : Nat
  maxLen : Nat

namespace DataBuf

/-- `databuf_init`. -/
def init (size : Nat) (preserveHead : Bool) (fresh : Nat → UInt8) : DataBuf where
  preserveHead := preserveHead
  allocSize := size
  allocPtr := if size = 0 then none else some (resize [] size fresh)
  offset := 0
  len := 0
  maxLen := 0

@[simp] theorem preserveHead_init (size : Nat) (preserveHead : Bool) (fresh : Nat → UInt8) :
    (init size preserveHead fresh).preserveHead = preserveHead := rfl

/-- The bytes that are allocated. -/
def block (db : DataBuf) : Bytes := db.allocPtr.getD []

/-- `databuf_tail_available`.  The size of the tail is an `unsigned`. -/
def tailAvailable (db : DataBuf) (appendLen : Nat) : Bool :=
  decide ((appendLen : Int) ≤ ((db.allocSize : Int) - (db.offset + db.len)) % 2 ^ 32)

/-- `databuf_shift_data_to_beginning`. -/
def shiftDataToBeginning (db : DataBuf) : DataBuf :=
  if db.preserveHead then db
  else match db.allocPtr with
    | none => db
    | some block =>
      if db.offset = 0 then db
      else { db with
        allocPtr := some (splice block 0 ((block.drop db.offset).take db.len))
        offset := 0 }

/-- The first part of `databuf_append`, which makes room for `srcSize` bytes. -/
def makeRoom (db : DataBuf) (srcSize : Nat) (fresh : Nat → UInt8) : DataBuf :=
  let newSize := db.len + srcSize
  if db.allocSize < newSize ∨ (db.preserveHead ∧ ¬ db.tailAvailable srcSize) then
    let db := db.shiftDataToBeginning
    { db with allocPtr := some (resize db.block newSize fresh), allocSize := newSize }
  else if db.tailAvailable srcSize then db
  else db.shiftDataToBeginning

/-- `databuf_append`, with the bytes that `realloc` adds. -/
def append (db : DataBuf) (src : Bytes) (fresh : Nat → UInt8) : Int × DataBuf :=
  if src = [] then (0, db)
  else
    let newSize := db.len + src.length
    let db := db.makeRoom src.length fresh
    (1, { db with
      allocPtr := db.allocPtr.map fun block => splice block (db.offset + db.len) src
      len := newSize
      maxLen := max db.maxLen newSize })

/-- `databuf_advance`. -/
def advance (db : DataBuf) (advance : Nat) : Int × DataBuf :=
  let actualAdvance := min advance db.len
  (if advance = actualAdvance then 1 else -1,
    { db with offset := db.offset + actualAdvance, len := db.len - actualAdvance })

/-- `databuf_reset`. -/
def reset (db : DataBuf) : Int × DataBuf :=
  if db.preserveHead then (1, { db with offset := 0, len := min db.allocSize db.maxLen })
  else (-1, db)

/-- `DATABUF_VALIDATE`. -/
def Validate (db : DataBuf) : Prop :=
  if db.allocPtr = none ∨ db.allocSize = 0 then
    db.allocPtr = none ∧ db.allocSize = 0 ∧ db.len = 0
  else
    db.offset ≤ db.allocSize ∧ db.len ≤ db.allocSize ∧ db.offset + db.len ≤ db.allocSize

/-- The bytes from `databuf_beg` on. -/
def visible (db : DataBuf) : Bytes := (db.block.drop db.offset).take db.len

/-- A call. -/
inductive Call where
  | append (src : Bytes) (fresh : Nat → UInt8)
  | advance (n : Nat)
  | reset

/-- The buffer after a call. -/
def step (db : DataBuf) : Call → DataBuf
  | .append src fresh => (db.append src fresh).2
  | .advance n => (db.advance n).2
  | .reset => db.reset.2

/-- The buffer after some calls. -/
def run (db : DataBuf) (calls : List Call) : DataBuf := calls.foldl step db

end DataBuf

/-! ## What it is for -/

/-- All bytes that were appended, and how many of them have been passed over. -/
structure ByteQueue where
  all : Bytes
  passed : Nat

namespace ByteQueue

def empty : ByteQueue := ⟨[], 0⟩

/-- The bytes in the queue. -/
def visible (q : ByteQueue) : Bytes := q.all.drop q.passed

/-- The queue after a call. -/
def step (preserveHead : Bool) (q : ByteQueue) : DataBuf.Call → ByteQueue
  | .append src _ => { q with all := q.all ++ src }
  | .advance n => { q with passed := q.passed + min n q.visible.length }
  | .reset => if preserveHead then { q with passed := 0 } else q

/-- The queue after some calls. -/
def run (preserveHead : Bool) (calls : List DataBuf.Call) : ByteQueue :=
  calls.foldl (step preserveHead) empty

end ByteQueue

/-- After each call the conditions hold, and the bytes of the buffer are those of the queue. -/
def DataBuf.Behaves (db : DataBuf) (calls : List DataBuf.Call) : Prop :=
  ∀ pre, pre <+: calls →
    (db.run pre).Validate ∧ (db.run pre).visible = (ByteQueue.run db.preserveHead pre).visible

/-! ## When it works -/

/-- The queue, the size of the block, and whether no byte had been passed over at the last append. -/
structure Tracker where
  queue : ByteQueue
  capacity : Nat
  whole : Bool

namespace Tracker

/-- There is room for `n` more bytes, as an `unsigned` counts it. -/
def Fits (t : Tracker) (n : Nat) : Prop := n ≤ (t.capacity - t.queue.all.length) % 2 ^ 32

instance (t : Tracker) (n : Nat) : Decidable (t.Fits n) :=
  inferInstanceAs (Decidable (n ≤ (t.capacity - t.queue.all.length) % 2 ^ 32))

/-- The calls that leave the head in place: bytes are appended when none have been passed over, or when
they fit; and everything that is to be seen again was counted. -/
def Admits (t : Tracker) : DataBuf.Call → Prop
  | .append src _ => src = [] ∨ t.queue.passed = 0 ∨ t.Fits src.length
  | .advance _ => True
  | .reset => t.whole = true

instance (t : Tracker) : (c : DataBuf.Call) → Decidable (t.Admits c)
  | .append src _ =>
    inferInstanceAs (Decidable (src = [] ∨ t.queue.passed = 0 ∨ t.Fits src.length))
  | .advance _ => inferInstanceAs (Decidable True)
  | .reset => inferInstanceAs (Decidable (t.whole = true))

/-- What is tracked after a call. -/
def step (t : Tracker) (c : DataBuf.Call) : Tracker where
  queue := t.queue.step true c
  capacity := match c with
    | .append src _ =>
      if src = [] ∨ t.Fits src.length then t.capacity else t.queue.all.length + src.length
    | _ => t.capacity
  whole := match c with
    | .append src _ => if src = [] then t.whole else t.queue.passed == 0
    | _ => t.whole

/-- Nothing has been appended to a block of some size. -/
def start (size : Nat) : Tracker := ⟨.empty, size, true⟩

/-- What is tracked after some calls. -/
def run (size : Nat) (calls : List DataBuf.Call) : Tracker := calls.foldl step (start size)

end Tracker

/-- Every call is admitted when it is made. -/
def Supported (size : Nat) (calls : List DataBuf.Call) : Prop :=
  ∀ pre c, pre ++ [c] <+: calls → (Tracker.run size pre).Admits c

/-! ## The block -/

namespace DataBuf

variable {db : DataBuf} {n : Nat} {fresh : Nat → UInt8}

/-- The block is as large as it says, and the bytes of interest are in it. -/
structure Shape (db : DataBuf) : Prop where
  length : db.block.length = db.allocSize
  null : db.allocSize = 0 → db.allocPtr = none
  fits : db.offset + db.len ≤ db.allocSize

theorem Shape.validate (h : db.Shape) : db.Validate := by
  have hfits := h.fits
  by_cases hsize : db.allocSize = 0
  · rw [Validate, if_pos (.inr hsize)]
    exact ⟨h.null hsize, hsize, by omega⟩
  · have hptr : db.allocPtr ≠ none := by
      intro hnone
      have hlen := h.length
      simp [block, hnone] at hlen
      exact hsize hlen.symm
    rw [Validate, if_neg (by simp [hptr, hsize])]
    omega

/-- Everything up to the last byte of interest. -/
def head (db : DataBuf) : Bytes := db.block.take (db.offset + db.len)

theorem visible_eq_drop_head (db : DataBuf) : db.visible = db.head.drop db.offset := by
  simp [visible, head, drop_take]

theorem Shape.length_head (h : db.Shape) : db.head.length = db.offset + db.len := by
  simp [head, h.length, h.fits]

theorem Shape.length_visible (h : db.Shape) : db.visible.length = db.len := by
  rw [visible_eq_drop_head, length_drop, h.length_head, Nat.add_sub_cancel_left]

/-- As long as the bytes of interest are in the block, the tail is what is behind them. -/
theorem Shape.tailAvailable_iff (h : db.Shape) :
    db.tailAvailable n = true ↔ n ≤ (db.allocSize - (db.offset + db.len)) % 2 ^ 32 := by
  have hfits := h.fits
  rw [tailAvailable, decide_eq_true_iff]
  omega

theorem shape_init (size : Nat) (preserveHead : Bool) (fresh : Nat → UInt8) :
    (init size preserveHead fresh).Shape := by
  constructor
  · by_cases hsize : size = 0 <;> simp [init, block, hsize]
  · intro hsize
    exact if_pos hsize
  · simp [init]

theorem Shape.exists_block (h : db.Shape) (hsize : db.allocSize ≠ 0) :
    ∃ mem, db.allocPtr = some mem ∧ mem.length = db.allocSize := by
  have hlen := h.length
  cases hptr : db.allocPtr with
  | none =>
    simp [block, hptr] at hlen
    omega
  | some mem => exact ⟨mem, rfl, by simpa [block, hptr] using hlen⟩

theorem Shape.shift (h : db.Shape) (hp : db.preserveHead = false) :
    db.shiftDataToBeginning.Shape ∧ db.shiftDataToBeginning.offset = 0 ∧
    db.shiftDataToBeginning.len = db.len ∧ db.shiftDataToBeginning.allocSize = db.allocSize ∧
    db.shiftDataToBeginning.visible = db.visible := by
  have hfits := h.fits
  by_cases hoff : db.offset = 0
  · have hsame : db.shiftDataToBeginning = db := by
      cases hptr : db.allocPtr <;> simp [shiftDataToBeginning, hp, hptr, hoff]
    rw [hsame]
    exact ⟨h, hoff, rfl, rfl, rfl⟩
  · obtain ⟨mem, hptr, hmem⟩ := h.exists_block (by omega)
    have hvis : ((mem.drop db.offset).take db.len).length = db.len := by simp [hmem]; omega
    have htake : (splice mem 0 ((mem.drop db.offset).take db.len)).take db.len =
        (mem.drop db.offset).take db.len := by
      have hsplice := take_splice ((mem.drop db.offset).take db.len) (Nat.zero_le mem.length)
      rwa [hvis, Nat.zero_add] at hsplice
    have hshift : db.shiftDataToBeginning = { db with
        allocPtr := some (splice mem 0 ((mem.drop db.offset).take db.len))
        offset := 0 } := by
      simp [shiftDataToBeginning, hp, hptr, hoff]
    rw [hshift]
    refine ⟨⟨?_, ?_, ?_⟩, rfl, rfl, rfl, ?_⟩
    · show (splice mem 0 _).length = db.allocSize
      rw [length_splice (by omega), hmem]
    · intro hsize
      have hsize : db.allocSize = 0 := hsize
      omega
    · show 0 + db.len ≤ db.allocSize
      omega
    · simpa [visible, block, hptr] using htake

theorem Shape.realloc (h : db.Shape) (fresh : Nat → UInt8) (hn : db.offset + db.len ≤ n) (hpos : 0 < n) :
    ({ db with allocPtr := some (resize db.block n fresh), allocSize := n } : DataBuf).Shape ∧
    ({ db with allocPtr := some (resize db.block n fresh), allocSize := n } : DataBuf).head =
      db.head := by
  refine ⟨⟨length_resize, fun hsize => ?_, hn⟩, ?_⟩
  · have hsize : n = 0 := hsize
    omega
  · exact take_resize hn (by rw [h.length]; exact h.fits)

/-- Bytes are copied behind those of interest. -/
theorem Shape.write (h : db.Shape) {src : Bytes} (hsrc : src ≠ [])
    (hroom : db.offset + db.len + src.length ≤ db.allocSize) (m : Nat) :
    let db' : DataBuf := { db with
      allocPtr := db.allocPtr.map fun block => splice block (db.offset + db.len) src
      len := db.len + src.length
      maxLen := m }
    db'.Shape ∧ db'.head = db.head ++ src := by
  intro db'
  have hsize : db.allocSize ≠ 0 := by
    have := length_pos_iff.mpr hsrc
    omega
  obtain ⟨mem, hptr, hmem⟩ := h.exists_block hsize
  have hblock : db'.block = splice mem (db.offset + db.len) src := by simp [db', block, hptr]
  refine ⟨⟨?_, fun hzero => absurd hzero hsize, ?_⟩, ?_⟩
  · rw [hblock, length_splice (by omega), hmem]
  · show db.offset + (db.len + src.length) ≤ db.allocSize
    omega
  · show db'.block.take (db.offset + (db.len + src.length)) = _
    rw [hblock, ← Nat.add_assoc, take_splice _ (by omega), head, block, hptr]
    rfl

/-! ## Without the flag -/

theorem Shape.makeRoom (h : db.Shape) (fresh : Nat → UInt8) (hp : db.preserveHead = false) (hn : 0 < n) :
    (db.makeRoom n fresh).Shape ∧ (db.makeRoom n fresh).visible = db.visible ∧
    (db.makeRoom n fresh).len = db.len ∧
    (db.makeRoom n fresh).offset + db.len + n ≤ (db.makeRoom n fresh).allocSize := by
  obtain ⟨hshape, hoff, hlen, hsize, hvis⟩ := h.shift hp
  rw [DataBuf.makeRoom]
  split
  · have hle : db.shiftDataToBeginning.offset + db.shiftDataToBeginning.len ≤ db.len + n := by omega
    obtain ⟨hshape', hhead⟩ := hshape.realloc fresh hle (by omega)
    refine ⟨hshape', ?_, hlen, ?_⟩
    · rw [visible_eq_drop_head, hhead, ← hvis, visible_eq_drop_head]
    · simp_all
  · rename_i hcond
    split
    · rename_i havail
      refine ⟨h, rfl, rfl, ?_⟩
      have havail := h.tailAvailable_iff.mp havail
      omega
    · simp_all

@[simp] theorem preserveHead_shift : db.shiftDataToBeginning.preserveHead = db.preserveHead := by
  rw [shiftDataToBeginning]
  split
  · rfl
  · split
    · rfl
    · split <;> rfl

@[simp] theorem preserveHead_makeRoom : (db.makeRoom n fresh).preserveHead = db.preserveHead := by
  rw [DataBuf.makeRoom]
  split
  · exact preserveHead_shift
  · split
    · rfl
    · exact preserveHead_shift

/-- Passing over some bytes. -/
theorem visible_advance (k : Nat) : (db.advance k).2.visible = db.visible.drop (min k db.len) := by
  simp [advance, visible, block, drop_take]

theorem Shape.advance (h : db.Shape) (k : Nat) : (db.advance k).2.Shape := by
  have hfits := h.fits
  refine ⟨h.length, h.null, ?_⟩
  show db.offset + min k db.len + (db.len - min k db.len) ≤ db.allocSize
  omega

/-- Without the flag, the buffer is the queue. -/
structure IsQueue (db : DataBuf) (q : ByteQueue) : Prop where
  flag : db.preserveHead = false
  shape : db.Shape
  passed : q.passed ≤ q.all.length
  visible : db.visible = q.visible

theorem IsQueue.append {q : ByteQueue} (h : IsQueue db q) (src : Bytes) (fresh : Nat → UInt8) :
    IsQueue (db.append src fresh).2 { q with all := q.all ++ src } := by
  by_cases hsrc : src = []
  · subst hsrc
    simpa [DataBuf.append] using h
  · obtain ⟨hshape, hvis, hlen, hroom⟩ :=
      h.shape.makeRoom fresh h.flag (length_pos_iff.mpr hsrc)
    rw [DataBuf.append, if_neg hsrc]
    rw [← hlen] at hroom ⊢
    obtain ⟨hshape', hhead⟩ := hshape.write hsrc hroom
      (max (db.makeRoom src.length fresh).maxLen ((db.makeRoom src.length fresh).len + src.length))
    refine ⟨by simpa using h.flag, hshape', ?_, ?_⟩
    · simp only [length_append]
      have := h.passed
      omega
    · rw [visible_eq_drop_head, hhead]
      show ((db.makeRoom src.length fresh).head ++ src).drop (db.makeRoom src.length fresh).offset =
        (q.all ++ src).drop q.passed
      rw [drop_append_of_le_length (by rw [hshape.length_head]; omega),
        drop_append_of_le_length h.passed, ← visible_eq_drop_head, hvis, h.visible]
      rfl

theorem IsQueue.step {q : ByteQueue} (h : IsQueue db q) (c : Call) :
    IsQueue (db.step c) (q.step false c) := by
  cases c with
  | append src fresh => exact h.append src fresh
  | advance k =>
    have hlen : q.visible.length = db.len := by rw [← h.visible, h.shape.length_visible]
    refine ⟨h.flag, h.shape.advance k, ?_, ?_⟩
    · show q.passed + min k q.visible.length ≤ q.all.length
      have := h.passed
      simp only [ByteQueue.visible, length_drop]
      omega
    · show (db.advance k).2.visible = q.all.drop (q.passed + min k q.visible.length)
      rw [visible_advance, h.visible, ByteQueue.visible, drop_drop, ← hlen]
      rfl
  | reset =>
    have hreset : db.reset.2 = db := by simp [reset, h.flag]
    show IsQueue db.reset.2 q
    rw [hreset]
    exact h

theorem IsQueue.run {q : ByteQueue} (h : IsQueue db q) (calls : List Call) :
    IsQueue (db.run calls) (calls.foldl (ByteQueue.step false) q) := by
  induction calls generalizing db q with
  | nil => exact h
  | cons c calls ih => exact ih (h.step c)

theorem isQueue_init (size : Nat) (fresh : Nat → UInt8) : IsQueue (init size false fresh) .empty :=
  ⟨rfl, shape_init size false fresh, Nat.le_refl 0, by simp [DataBuf.visible, init, ByteQueue.visible,
    ByteQueue.empty]⟩

/-! ## With the flag -/

/-- With the flag, the block begins with all bytes that were appended. -/
structure Keeps (db : DataBuf) (t : Tracker) : Prop where
  flag : db.preserveHead = true
  shape : db.Shape
  head : db.head = t.queue.all
  offset : db.offset = t.queue.passed
  capacity : db.allocSize = t.capacity
  maxLen : db.maxLen ≤ t.queue.all.length
  whole : t.whole = true ↔ db.maxLen = t.queue.all.length

variable {t : Tracker}

namespace Keeps

theorem length (h : Keeps db t) : t.queue.all.length = db.offset + db.len := by
  rw [← h.head, h.shape.length_head]

theorem visible (h : Keeps db t) : db.visible = t.queue.visible := by
  rw [visible_eq_drop_head, h.head, h.offset, ByteQueue.visible]

theorem tailAvailable_iff (h : Keeps db t) : db.tailAvailable n = true ↔ t.Fits n := by
  rw [h.shape.tailAvailable_iff, h.capacity, ← h.length, Tracker.Fits]

/-- Nothing moves when room is made; the block becomes as large as the bytes of interest need. -/
theorem makeRoom (h : Keeps db t) (n : Nat) (fresh : Nat → UInt8) :
    db.makeRoom n fresh = if t.Fits n then db
      else { db with allocPtr := some (resize db.block (db.len + n) fresh), allocSize := db.len + n } := by
  have hfits := h.shape.fits
  have hshift : db.shiftDataToBeginning = db := by simp [shiftDataToBeginning, h.flag]
  rw [DataBuf.makeRoom, hshift]
  by_cases hn : t.Fits n
  · have havail := h.tailAvailable_iff.mpr hn
    have hle := (h.shape.tailAvailable_iff.mp havail).trans (Nat.mod_le _ _)
    rw [if_neg (by simp [havail]; omega), if_pos havail, if_pos hn]
  · have havail : ¬ db.tailAvailable n := fun havail => hn (h.tailAvailable_iff.mp havail)
    rw [if_pos (.inr ⟨h.flag, havail⟩), if_neg hn]

/-- There is room afterwards, if nothing was passed over or there was room before. -/
theorem roomy (h : Keeps db t) (fresh : Nat → UInt8) (hn : 0 < n) (hok : t.queue.passed = 0 ∨ t.Fits n) :
    (db.makeRoom n fresh).Shape ∧ (db.makeRoom n fresh).head = db.head ∧
    (db.makeRoom n fresh).allocSize = (if t.Fits n then t.capacity else t.queue.all.length + n) ∧
    db.offset + db.len + n ≤ (db.makeRoom n fresh).allocSize ∧
    (db.makeRoom n fresh).offset = db.offset ∧ (db.makeRoom n fresh).len = db.len ∧
    (db.makeRoom n fresh).maxLen = db.maxLen := by
  have hlen := h.length
  have hoff := h.offset
  rw [h.makeRoom]
  by_cases hn' : t.Fits n
  · have hle := hn'.trans (Nat.mod_le _ _)
    have hcap := h.capacity
    rw [if_pos hn', if_pos hn']
    refine ⟨h.shape, rfl, hcap, ?_, rfl, rfl, rfl⟩
    omega
  · have hzero : t.queue.passed = 0 := hok.resolve_right hn'
    rw [if_neg hn', if_neg hn']
    have hle : db.offset + db.len ≤ db.len + n := by omega
    obtain ⟨hshape, hhead⟩ := h.shape.realloc fresh hle (by omega)
    simp_all

theorem append (h : Keeps db t) {src : Bytes} (hsrc : src ≠ [])
    (hok : t.queue.passed = 0 ∨ t.Fits src.length) :
    Keeps (db.append src fresh).2 (t.step (.append src fresh)) := by
  have hpos := length_pos_iff.mpr hsrc
  obtain ⟨hshape, hhead, hsize, hroom, hoff, hlen, hmax⟩ := h.roomy fresh hpos hok
  rw [DataBuf.append, if_neg hsrc]
  dsimp only
  rw [← hlen, ← hoff] at hroom
  obtain ⟨hshape', hhead'⟩ := hshape.write hsrc hroom
    (max (db.makeRoom src.length fresh).maxLen (db.len + src.length))
  rw [hlen] at hshape' hhead'
  have htotal := h.length
  have hpassed := h.offset
  have hle := h.maxLen
  constructor
  case flag => simpa using h.flag
  case shape => rw [hlen]; exact hshape'
  case head =>
    show _ = t.queue.all ++ src
    rw [hlen]
    exact hhead'.trans (by rw [hhead, h.head])
  case offset => exact hoff.trans h.offset
  case capacity => simpa [Tracker.step, hsrc] using hsize
  case maxLen =>
    show max (db.makeRoom src.length fresh).maxLen (db.len + src.length) ≤ (t.queue.all ++ src).length
    rw [hmax, length_append]
    omega
  case whole =>
    show (if src = [] then t.whole else t.queue.passed == 0) = true ↔
      max (db.makeRoom src.length fresh).maxLen (db.len + src.length) = (t.queue.all ++ src).length
    rw [if_neg hsrc, beq_iff_eq, hmax, length_append]
    omega

/-- **An admitted call** leaves all bytes in the block. -/
theorem step (h : Keeps db t) {c : Call} (hc : t.Admits c) : Keeps (db.step c) (t.step c) := by
  have hlen := h.length
  cases c with
  | append src fresh =>
    by_cases hsrc : src = []
    · subst hsrc
      have hsame : t.step (.append [] fresh) = t := by simp [Tracker.step, ByteQueue.step]
      rw [hsame]
      simpa [DataBuf.step, DataBuf.append] using h
    · exact h.append hsrc (hc.resolve_left hsrc)
  | advance k =>
    have hvis : t.queue.visible.length = db.len := by rw [← h.visible, h.shape.length_visible]
    constructor
    case flag => exact h.flag
    case shape => exact h.shape.advance k
    case head =>
      show db.block.take (db.offset + min k db.len + (db.len - min k db.len)) = t.queue.all
      rw [← h.head, DataBuf.head, Nat.add_assoc, Nat.add_sub_cancel' (Nat.min_le_right k db.len)]
    case offset =>
      show db.offset + min k db.len = t.queue.passed + min k t.queue.visible.length
      rw [h.offset, hvis]
    case capacity => exact h.capacity
    case maxLen => exact h.maxLen
    case whole => exact h.whole
  | reset =>
    have hmax : db.maxLen = t.queue.all.length := h.whole.mp hc
    have hfits := h.shape.fits
    have hmin : min db.allocSize db.maxLen = db.offset + db.len := by omega
    have hreset : db.step .reset = { db with offset := 0, len := db.offset + db.len } := by
      simp [DataBuf.step, reset, h.flag, hmin]
    rw [hreset]
    constructor
    case flag => exact h.flag
    case shape => exact ⟨h.shape.length, h.shape.null, by simpa using hfits⟩
    case head =>
      show db.block.take (0 + (db.offset + db.len)) = t.queue.all
      rw [Nat.zero_add, ← h.head, DataBuf.head]
    case offset => rfl
    case capacity => exact h.capacity
    case maxLen => exact h.maxLen
    case whole => exact h.whole

/-- Any other call breaks the buffer. -/
theorem not_admitted (h : Keeps db t) {c : Call} (hc : ¬ t.Admits c) :
    ¬ ((db.step c).Validate ∧ (db.step c).visible = (t.queue.step true c).visible) := by
  have hlen := h.length
  have hpassed := h.offset
  cases c with
  | append src fresh =>
    obtain ⟨hsrc, hpos, hfit⟩ : src ≠ [] ∧ t.queue.passed ≠ 0 ∧ ¬ t.Fits src.length := by
      simpa [Tracker.Admits] using hc
    have hstep : db.step (.append src fresh) = { db with
        allocPtr := some (splice (resize db.block (db.len + src.length) fresh) (db.offset + db.len) src)
        allocSize := db.len + src.length
        len := db.len + src.length
        maxLen := max db.maxLen (db.len + src.length) } := by
      simp [DataBuf.step, DataBuf.append, hsrc, h.makeRoom, hfit]
    rw [hstep]
    rintro ⟨hvalid, -⟩
    rw [Validate, if_neg (by simp [hsrc])] at hvalid
    have hle : db.offset + (db.len + src.length) ≤ db.len + src.length := hvalid.2.2
    omega
  | advance k => exact absurd trivial hc
  | reset =>
    have hmax : db.maxLen < t.queue.all.length := by
      have := h.maxLen
      have hne : db.maxLen ≠ t.queue.all.length := fun heq => hc (h.whole.mpr heq)
      omega
    have hfits := h.shape.fits
    have hmin : min db.allocSize db.maxLen = db.maxLen := by omega
    have hstep : db.step .reset = { db with offset := 0, len := db.maxLen } := by
      simp [DataBuf.step, reset, h.flag, hmin]
    rw [hstep]
    rintro ⟨-, hvis⟩
    have hvis : db.block.take db.maxLen = t.queue.all := by
      simpa [DataBuf.visible, block, ByteQueue.step, ByteQueue.visible] using hvis
    have := congrArg List.length hvis
    rw [length_take, h.shape.length] at this
    omega

end Keeps

theorem keeps_init (size : Nat) (fresh : Nat → UInt8) : Keeps (init size true fresh) (.start size) where
  flag := rfl
  shape := shape_init size true fresh
  head := by simp [DataBuf.head, init, Tracker.start, ByteQueue.empty]
  offset := rfl
  capacity := rfl
  maxLen := Nat.le_refl 0
  whole := by simp [init, Tracker.start, ByteQueue.empty]

end DataBuf

/-! ## Whole runs -/

namespace Tracker

theorem run_snoc (size : Nat) (pre : List DataBuf.Call) (c : DataBuf.Call) :
    run size (pre ++ [c]) = (run size pre).step c := by
  simp [run]

theorem queue_run (size : Nat) (calls : List DataBuf.Call) :
    (run size calls).queue = ByteQueue.run true calls := by
  induction calls using List.reverseRecOn with
  | nil => rfl
  | append_singleton calls c ih =>
    rw [run_snoc, ByteQueue.run, foldl_append]
    show (run size calls).queue.step true c = (ByteQueue.run true calls).step true c
    rw [ih]

end Tracker

namespace DataBuf

theorem run_snoc (db : DataBuf) (pre : List Call) (c : Call) :
    db.run (pre ++ [c]) = (db.run pre).step c := by
  simp [run]

theorem keeps_run {size : Nat} (fresh : Nat → UInt8) {calls : List Call}
    (h : ∀ pre c, pre ++ [c] <+: calls →
      Keeps ((init size true fresh).run pre) (.run size pre) → (Tracker.run size pre).Admits c) :
    ∀ pre, pre <+: calls → Keeps ((init size true fresh).run pre) (.run size pre) := by
  intro pre hpre
  induction pre using List.reverseRecOn with
  | nil => exact keeps_init size fresh
  | append_singleton pre c ih =>
    have hkeeps := ih ((prefix_append pre [c]).trans hpre)
    rw [run_snoc, Tracker.run_snoc]
    exact hkeeps.step (h pre c hpre hkeeps)

/-- **The buffer is the queue of bytes it is meant to be** for all calls without the flag, and with the
flag for the calls that are admitted. -/
theorem behaves_iff (size : Nat) (preserveHead : Bool) (fresh : Nat → UInt8) (calls : List Call) :
    (init size preserveHead fresh).Behaves calls ↔ preserveHead = false ∨ Supported size calls := by
  cases preserveHead with
  | false =>
    refine iff_of_true (fun pre _ => ?_) (.inl rfl)
    have h := (isQueue_init size fresh).run pre
    exact ⟨h.shape.validate, h.visible⟩
  | true =>
    constructor
    · intro hbehaves
      have hadmits : ∀ pre c, pre ++ [c] <+: calls →
          Keeps ((init size true fresh).run pre) (.run size pre) → (Tracker.run size pre).Admits c := by
        intro pre c hpre hkeeps
        by_contra hc
        refine hkeeps.not_admitted hc ?_
        have hnext := hbehaves (pre ++ [c]) hpre
        rw [run_snoc, preserveHead_init] at hnext
        rwa [← Tracker.queue_run size (pre ++ [c]), Tracker.run_snoc] at hnext
      refine .inr fun pre c hpre => hadmits pre c hpre ?_
      exact keeps_run fresh hadmits pre ((prefix_append pre [c]).trans hpre)
    · intro hsupported
      have hsupported : Supported size calls := hsupported.resolve_left Bool.noConfusion
      intro pre hpre
      have hkeeps := keeps_run fresh (fun pre c hpre _ => hsupported pre c hpre) pre hpre
      refine ⟨hkeeps.shape.validate, ?_⟩
      rw [hkeeps.visible, Tracker.queue_run]
      rfl

/-- Two bytes, one passed over, and two more: `realloc` is asked for three bytes, and four are used. -/
theorem append_behind_passed_byte :
    let calls : List Call := [.append [97, 98] fun _ => 0, .advance 1, .append [99, 100] fun _ => 0]
    let db := (init 0 true fun _ => 0).run calls
    db.allocSize = 3 ∧ db.offset + db.len = 4 ∧ ¬ (init 0 true fun _ => 0).Behaves calls := by
  intro calls db
  have hsize : db.allocSize = 3 ∧ db.offset + db.len = 4 ∧ db.allocPtr ≠ none := by decide
  refine ⟨hsize.1, hsize.2.1, fun hbehaves => ?_⟩
  have hvalid := (hbehaves calls (prefix_refl calls)).1
  have hcond : ¬ (db.allocPtr = none ∨ db.allocSize = 0) := by
    rintro (hnull | hzero)
    · exact hsize.2.2 hnull
    · omega
  rw [Validate, if_neg hcond] at hvalid
  have hle : db.offset + db.len ≤ db.allocSize := hvalid.2.2
  omega

end DataBuf

end LibAudit.Auparse
