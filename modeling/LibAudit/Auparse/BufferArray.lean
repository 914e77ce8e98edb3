import LibAudit.Auparse.DataBuf
import LibAudit.Auparse.Unread
import Mathlib.Algebra.GroupWithZero.Nat

/-!
# Reading an array of buffers

`AUSOURCE_BUFFER_ARRAY` copies an array of strings into one buffer.  It goes through the array twice.  The
first time it computes how much room the strings take, with one more byte for each string that has no newline
at its end; the second time it appends the strings.  The newlines for which there is room are never
appended: the events are those of the strings one behind the other (`arrayEvents_eq`), so that a
string without a newline and the one behind it are one line, and the last line of the array is not read.
If every line is a record, one is missing for each newline, so that these are the events of the array only
if there is no such string.
-/

namespace LibAudit.Auparse

open DataBuf List

/-! ## The source -/

/-- An element of the array.  The first loop looks at its last byte. -/
structure BufferString extends CString where
  ne_nil : bytes ≠ []

namespace BufferString

/-- The string ends in a newline. -/
def terminated (s : BufferString) : Bool := s.bytes.getLast s.ne_nil == 10

/-- The string, with a newline if it has none. -/
def line (s : BufferString) : Bytes := if s.terminated then s.bytes else s.bytes ++ [10]

end BufferString

/-- The first loop of `auparse_init`. -/
def arraySize (bb : List BufferString) : Nat :=
  (bb.map fun s => if s.terminated then s.strlen else s.strlen + 1).sum

/-- The buffer that `auparse_init` makes of the array. -/
def arrayBuf (fresh : Nat → UInt8) (bb : List BufferString) : DataBuf :=
  (DataBuf.init (arraySize bb) true fresh).run (bb.map fun s => .append s.bytes fresh)

/-- The events of `AUSOURCE_BUFFER_ARRAY`, in the order in which they are read. -/
def arrayEvents (junk : Nat → Bytes) (fresh : Nat → UInt8) (bb : List BufferString) : List EventList :=
  ({ Feed.init junk with databuf := (arrayBuf fresh bb).visible }.readAll .buffer).delivered

/-! ## What is in the buffer -/

theorem queue_appends (fresh : Nat → UInt8) (bb : List BufferString) :
    ByteQueue.run true (bb.map fun s => .append s.bytes fresh) = ⟨bb.flatMap (·.bytes), 0⟩ := by
  induction bb using List.reverseRecOn with
  | nil => rfl
  | append_singleton bb s ih =>
    rw [ByteQueue.run] at ih
    rw [map_append, ByteQueue.run, foldl_append, ih, flatMap_append]
    simp [ByteQueue.step]

/-- The strings, one behind the other. -/
theorem visible_arrayBuf (fresh : Nat → UInt8) (bb : List BufferString) :
    (arrayBuf fresh bb).visible = bb.flatMap (·.bytes) := by
  have hadmits : ∀ pre c, pre ++ [c] <+: (bb.map fun s => .append s.bytes fresh) →
      Keeps ((init (arraySize bb) true fresh).run pre) (.run (arraySize bb) pre) →
      (Tracker.run (arraySize bb) pre).Admits c := by
    rintro pre c ⟨rest, hrest⟩ _
    -- nothing has been passed over while the array is copied
    obtain ⟨bb', -, -, hbb', -⟩ := map_eq_append_iff.mp hrest.symm
    obtain ⟨before, s, -, rfl, hs⟩ := map_eq_append_iff.mp hbb'
    obtain ⟨s, -, rfl, rfl, -⟩ := map_eq_cons_iff.mp hs
    refine .inr (.inl ?_)
    rw [Tracker.queue_run, queue_appends]
  have hkeeps := keeps_run fresh hadmits _ (prefix_refl _)
  rw [arrayBuf, hkeeps.visible, Tracker.queue_run, queue_appends]
  rfl

/-! ## The events -/

theorem untilNul_flatMap (bb : List BufferString) : untilNul (bb.flatMap (·.bytes)) = bb.flatMap (·.bytes) := by
  refine untilNul_of_notMem fun hmem => ?_
  obtain ⟨s, -, hs⟩ := mem_flatMap.mp hmem
  exact s.nulFree hs

theorem untilNul_lines (bb : List BufferString) : untilNul (bb.flatMap (·.line)) = bb.flatMap (·.line) := by
  refine untilNul_of_notMem fun hmem => ?_
  obtain ⟨s, -, hs⟩ := mem_flatMap.mp hmem
  rw [BufferString.line] at hs
  split at hs
  · exact s.nulFree hs
  · exact (mem_append.mp hs).elim s.nulFree (by decide)

/-- A newline is at the end of every line. -/
theorem BufferString.exists_line_eq (s : BufferString) : ∃ t, s.line = t ++ [10] := by
  rw [line]
  split
  · rename_i h
    rw [terminated, beq_iff_eq] at h
    exact ⟨s.bytes.dropLast, h ▸ (dropLast_append_getLast s.ne_nil).symm⟩
  · exact ⟨s.bytes, rfl⟩

theorem split_lines_snd (bb : List BufferString) : (lines.split (bb.flatMap (·.line))).2 = [] := by
  rcases eq_nil_or_concat bb with rfl | ⟨before, s, rfl⟩
  · exact congrArg Prod.snd Framer.split_nil
  · obtain ⟨t, ht⟩ := s.exists_line_eq
    rw [concat_eq_append, flatMap_append, flatMap_singleton, ht, ← append_assoc]
    exact Framer.split_snd_concat _

/-- There is one newline less for every string that has none. -/
theorem count_lines (bb : List BufferString) : (bb.flatMap (·.line)).count 10 =
    (bb.flatMap (·.bytes)).count 10 + bb.countP fun s => !s.terminated := by
  induction bb with
  | nil => rfl
  | cons s bb ih =>
    rw [flatMap_cons, flatMap_cons, count_append, count_append, ih, countP_cons, BufferString.line]
    cases s.terminated with
    | true => simp only [if_true, Bool.not_true, Bool.false_eq_true, if_false]; omega
    | false =>
      simp only [Bool.false_eq_true, if_false, Bool.not_false, if_true, count_append, count_singleton_self]
      omega

theorem arrayEvents_eq_buffer (junk : Nat → Bytes) (fresh : Nat → UInt8) (bb : List BufferString) :
    arrayEvents junk fresh bb = Source.buffer.events junk (bb.flatMap (·.bytes)) := by
  rw [arrayEvents, visible_arrayBuf, Source.events, Source.init, Source.contents, untilNul_flatMap]

theorem length_records (n : Nat) (ls : List Bytes) : (records n ls).length = ls.length := by
  induction ls generalizing n with
  | nil => rfl
  | cons line ls ih => exact congrArg (· + 1) (ih (n + 1))

theorem size_init (junk : Nat → Bytes) : (Feed.init junk).size = 0 := rfl

/-- If every line is a record, as many are delivered as there are newlines. -/
theorem length_recordsOf_lines {junk : Nat → Bytes} {bb : List BufferString}
    (h : ∀ r ∈ records 0 (lines.split (bb.flatMap (·.line))).1,
      r.parses junk = true ∧ r.type ≠ Tables.auditEoe) :
    (recordsOf (Source.buffer.events junk (bb.flatMap (·.line)))).length =
      (bb.flatMap (·.line)).count 10 := by
  have hends : Source.buffer.ends (bb.flatMap (·.line)) = true := by
    rw [Source.ends, split_lines_snd]
    rfl
  have hsize := (Feed.init junk).size_readLines h
  rw [length_records, size_init, Nat.zero_add] at hsize
  rw [Source.events_buffer, readSoFar, untilNul_lines, hends, Feed.close, if_pos rfl, Feed.size_finish]
  exact hsize.trans (Framer.length_split_delimited _)

/-- Without the newlines there are no more records than newlines. -/
theorem length_recordsOf_bytes_le (junk : Nat → Bytes) (bb : List BufferString) :
    (recordsOf (Source.buffer.events junk (bb.flatMap (·.bytes)))).length ≤
      (bb.flatMap (·.bytes)).count 10 := by
  have hsize := (Feed.init junk).size_readLines_le (records 0 (lines.split (bb.flatMap (·.bytes))).1)
  rw [length_records, size_init, Nat.zero_add] at hsize
  rw [Source.events_buffer, readSoFar, untilNul_flatMap]
  exact (Feed.size_close _ _).trans (hsize.trans_eq (Framer.length_split_delimited _))

/-- **An array of buffers has the events of its strings, one behind the other.**  If all of them end in a
newline, these are the lines of the array; and if every line is a record, they are so only then. -/
theorem arrayEvents_eq (junk : Nat → Bytes) (fresh : Nat → UInt8) (bb : List BufferString) :
    arrayEvents junk fresh bb = Source.buffer.events junk (bb.flatMap (·.bytes)) ∧
      ((∀ s ∈ bb, s.terminated = true) →
        arrayEvents junk fresh bb = Source.buffer.events junk (bb.flatMap (·.line))) ∧
      ((∀ r ∈ records 0 (lines.split (bb.flatMap (·.line))).1,
          r.parses junk = true ∧ r.type ≠ Tables.auditEoe) →
        (arrayEvents junk fresh bb = Source.buffer.events junk (bb.flatMap (·.line)) ↔
          ∀ s ∈ bb, s.terminated = true)) := by
  have hall : (∀ s ∈ bb, s.terminated = true) →
      arrayEvents junk fresh bb = Source.buffer.events junk (bb.flatMap (·.line)) := by
    intro hall
    have hlines : bb.flatMap (·.line) = bb.flatMap (·.bytes) :=
      flatMap_congr fun s hs => if_pos (hall s hs)
    rw [arrayEvents_eq_buffer, hlines]
  refine ⟨arrayEvents_eq_buffer junk fresh bb, hall, fun hrecords => ⟨fun heq => ?_, hall⟩⟩
  have hsize := length_recordsOf_bytes_le junk bb
  rw [← arrayEvents_eq_buffer junk fresh, heq, length_recordsOf_lines hrecords, count_lines] at hsize
  have hnone : (bb.countP fun s => !s.terminated) = 0 := by omega
  exact fun s hs => by simpa using countP_eq_zero.mp hnone s hs

/-- A login that is logged without a newline. -/
def loginString : BufferString := ⟨⟨ascii "type=LOGIN msg=audit(7.000:1): pid=1", by decide⟩, by decide⟩

/-- Its event is not read, but it would be with a newline. -/
theorem array_line_unread : arrayEvents (fun _ => []) (fun _ => 0) [loginString] = [] ∧
      (Source.buffer.events (fun _ => []) ([loginString].flatMap (·.line))).length = 1 := by
  have hsplit : lines.split (untilNul ([loginString].flatMap (·.bytes))) = ([], loginString.bytes) :=
    Framer.split_of_none (by decide)
  have hsplit' : lines.split (untilNul ([loginString].flatMap (·.line))) = ([loginString.line], []) := by
    show lines.split [loginString.line].flatten = _
    exact Framer.split_flatten (by decide)
  refine ⟨?_, ?_⟩
  · rw [arrayEvents_eq_buffer, Source.events_buffer, readSoFar, Source.lines, Source.ends, hsplit]
    rfl
  · rw [Source.events_buffer, readSoFar, Source.lines, Source.ends, hsplit']
    show (Feed.finish _).delivered.length = 1
    rw [Feed.length_delivered_finish]
    decide +kernel

end LibAudit.Auparse
