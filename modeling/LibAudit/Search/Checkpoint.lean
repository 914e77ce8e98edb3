import LibAudit.Lib.Number
import LibAudit.Search.Lol

/-!
# The checkpoint file

`ausearch-checkpt.c` keeps three lines: the device and the inode of the log, of which only the lower
32 bits are written, and the last event that the search came across.  `loadChkPt_saved` says what is
read back: these bits, unless they are 0, and the event, but without the name of its node if it starts
with a dash, since a dash stands for no name.  `loadChkPt_eq_iff`: nothing else is lost.
-/

namespace LibAudit.Search

open Records List Option

/-- `event`. -/
structure Event where
  id : EventId
  type : Int32
  deriving DecidableEq

/-- `{0, 0, 0, NULL, 0}`. -/
def Event.zero : Event := ⟨⟨0, 0, 0, none⟩, 0⟩

/-- `l->e`. -/
def toEvent (l : Llist) : Event := ⟨l.1, eventType l.2⟩

/-! ## Writing -/

/-- `%lu.%03u:%lu 0x%X`. -/
def printEvent (e : Event) : Bytes :=
  printNat 10 e.id.sec.toUInt64.toNat ++ 46 :: (printPadded 3 e.id.milli.toNat ++
    58 :: (printNat 10 e.id.serial.toNat ++
      32 :: 48 :: 120 :: printNat 16 e.type.toUInt32.toNat))

/-- The three lines that `save_ChkPt` writes. -/
def chkPtLines (dev ino : UInt64) (last : Event) : List Bytes := [
  ascii "dev=" ++ 48 :: 120 :: printNat 16 dev.toUInt32.toNat,
  ascii "inode=" ++ printNat 10 ino.toUInt32.toNat,
  ascii "output=" ++ (last.id.node.getD [45] ++ 32 :: printEvent last)]

/-- `save_ChkPt`. -/
def saveChkPt (dev ino : UInt64) (last : Event) : Bytes :=
  (chkPtLines dev ino last).flatMap (· ++ [10])

/-! ## Reading -/

/-- What `fgets` with a buffer of `size` bytes returns, call by call, if `cur` is in the buffer. -/
def fgets (size : Nat) : Bytes → Bytes → List Bytes
  | [], [] => []
  | cur, [] => [cur]
  | cur, c :: s =>
    if c = 10 ∨ cur.length + 2 = size then (cur ++ [c]) :: fgets size [] s
    else fgets size (cur ++ [c]) s

/-- `sscanf(rest, "%lu.%03u:%lu 0x%X")`, if all four are read. -/
def scanEvent (rest : Bytes) (node : Option Bytes) : Option Event := do
  let (sec, s) ← scanUnsigned 10 none rest
  let s ← scanChar 46 s
  let (milli, s) ← scanUnsigned 10 (some 3) s
  let s ← scanChar 58 s
  let (serial, s) ← scanUnsigned 10 none s
  let s ← scanChar 48 (s.dropWhile isSpace)
  let s ← scanChar 120 s
  let (type, _) ← scanUnsigned 16 none s
  some ⟨⟨sec.toInt64, milli.toUInt32, serial, node⟩, type.toUInt32.toInt32⟩

/-- `parse_checkpt_event`, from the node on. -/
def parseCheckptEvent (s : Bytes) : Option Event :=
  if s.contains 32 then
    let node := s.takeWhile (· != 32)
    scanEvent ((s.dropWhile (· != 32)).drop 1) (if node.head? = some 45 then none else some node)
  else none

/-- `chkpt_input_dev`, `chkpt_input_ino` and `chkpt_input_levent`. -/
structure ChkPt where
  dev : UInt64
  ino : UInt64
  levent : Event

/-- A line of the file; `none` if `load_ChkPt` stops there with a failure. -/
def parseLine (c : ChkPt) (lbuf : Bytes) : Option ChkPt :=
  if lbuf.take 4 = ascii "dev=" then (strtoulIn 16 (lbuf.drop 4)).map fun dev => { c with dev }
  else if lbuf.take 6 = ascii "inode=" then
    (strtoulIn 0 (lbuf.drop 6)).map fun ino => { c with ino }
  else if lbuf.take 7 = ascii "output=" then
    (parseCheckptEvent (lbuf.drop 7)).map fun levent => { c with levent }
  else none

/-- One round of the loop of `load_ChkPt`, which drops the newline. -/
def loadLine (c : ChkPt) (lbuf : Bytes) : Option ChkPt :=
  let lbuf := untilNul lbuf
  parseLine c (if lbuf.getLast? = some 10 then lbuf.dropLast else lbuf)

/-- `MAX_LN`. -/
def maxLn : Nat := 1023

/-- `load_ChkPt`. -/
def loadChkPt (text : Bytes) : Option ChkPt := do
  let c ← (fgets maxLn [] text).foldlM loadLine ⟨0, 0, Event.zero⟩
  if c.ino = 0 ∨ c.dev = 0 then none else some c

/-! ## What is read back -/

theorem fgets_line {size : Nat} {line : Bytes} (hnl : 10 ∉ line) (cur s : Bytes)
    (hsize : cur.length + line.length + 2 ≤ size) :
    fgets size cur (line ++ 10 :: s) = (cur ++ line ++ [10]) :: fgets size [] s := by
  induction line generalizing cur with
  | nil =>
    rw [nil_append, append_nil, fgets, if_pos (.inl rfl)]
  | cons c line ih =>
    rw [length_cons] at hsize
    rw [mem_cons, not_or] at hnl
    rw [cons_append, fgets, if_neg (not_or.mpr ⟨Ne.symm hnl.1, by omega⟩),
      ih hnl.2 _ (by rw [length_append, length_singleton]; omega)]
    simp

theorem fgets_lines {size : Nat} {lines : List Bytes}
    (h : ∀ line ∈ lines, 10 ∉ line ∧ line.length + 2 ≤ size) :
    fgets size [] (lines.flatMap (· ++ [10])) = lines.map (· ++ [10]) := by
  induction lines with
  | nil => rfl
  | cons line lines ih =>
    obtain ⟨hnl, hlen⟩ := h line mem_cons_self
    rw [flatMap_cons, append_assoc, singleton_append,
      fgets_line hnl [] _ (by simpa using hlen), map_cons, nil_append,
      ih fun line' hline' => h line' (mem_cons_of_mem _ hline')]

variable {e : Event}

theorem scanEvent_printEvent (hmilli : e.id.milli.toNat < 1000) (node : Option Bytes) :
    scanEvent (printEvent e) node = some ⟨{ e.id with node }, e.type⟩ := by
  have hlit : ∀ (c : UInt8) (s : Bytes), scanChar c (c :: s) = some s := fun c s => if_pos rfl
  have hblank : ∀ s : Bytes, (32 :: 48 :: s).dropWhile isSpace = 48 :: s := fun _ => rfl
  have hmilli' : e.id.milli.toNat < 2 ^ 64 := by omega
  have htype : e.type.toUInt32.toNat < 2 ^ 64 := by
    have := e.type.toUInt32.toNat_lt
    omega
  rw [scanEvent, printEvent, scanUnsigned_decimal (UInt64.toNat_lt _) (by decide)]
  simp only [bind_eq_bind, bind_some, hlit]
  rw [scanUnsigned_padded hmilli hmilli']
  simp only [bind_some, hlit]
  rw [scanUnsigned_decimal (UInt64.toNat_lt _) (by decide)]
  simp only [bind_some, hblank, hlit]
  rw [scanUnsigned_hex htype]
  simp

/-- An event that the three lines can hold. -/
structure Writable (e : Event) : Prop where
  milli : e.id.milli.toNat < 1000
  node : ∀ s, e.id.node = some s → 32 ∉ s ∧ 10 ∉ s ∧ 0 ∉ s ∧ s.head? ≠ some 45 ∧ s.length ≤ 900

/-- An event that the three lines can hold, but for the dash. -/
structure Savable (e : Event) : Prop where
  milli : e.id.milli.toNat < 1000
  node : ∀ s, e.id.node = some s → 32 ∉ s ∧ 10 ∉ s ∧ 0 ∉ s ∧ s.length ≤ 900

theorem Writable.savable (h : Writable e) : Savable e where
  milli := h.milli
  node := fun s hs => ⟨(h.node s hs).1, (h.node s hs).2.1, (h.node s hs).2.2.1, (h.node s hs).2.2.2.2⟩

/-- A name that starts with a dash is taken for none. -/
def Event.asRead (e : Event) : Event :=
  if e.id.node.bind List.head? = some 45 then ⟨{ e.id with node := none }, e.type⟩ else e

theorem Event.asRead_eq_iff : e.asRead = e ↔ e.id.node.bind List.head? ≠ some 45 := by
  rw [asRead]
  grind

theorem parseCheckptEvent_output (h : Savable e) :
    parseCheckptEvent (e.id.node.getD [45] ++ 32 :: printEvent e) = some e.asRead := by
  have hword : 32 ∉ e.id.node.getD [45] := by
    cases hn : e.id.node with
    | none => decide
    | some s => exact (h.node s hn).1
  rw [parseCheckptEvent, if_pos (by simp)]
  simp only [takeWhile_append_cons hword, dropWhile_append_cons hword, drop_one, tail_cons,
    scanEvent_printEvent h.milli]
  rw [Event.asRead]
  cases hn : e.id.node with
  | none =>
    obtain ⟨⟨sec, milli, serial, node⟩, type⟩ := e
    cases hn
    rfl
  | some s =>
    rw [getD_some, bind_some]
    split
    · rfl
    · rw [← hn]

/-- Text without newlines and NUL. -/
def Inline (s : Bytes) : Prop := ∀ c ∈ s, c ≠ 10 ∧ c ≠ 0

instance (s : Bytes) : Decidable (Inline s) := List.decidableBAll (fun c => c ≠ 10 ∧ c ≠ 0) s

theorem inline_append {a b : Bytes} : Inline (a ++ b) ↔ Inline a ∧ Inline b := forall_mem_append

theorem inline_cons {c : UInt8} {s : Bytes} : Inline (c :: s) ↔ (c ≠ 10 ∧ c ≠ 0) ∧ Inline s :=
  forall_mem_cons

theorem inline_printNat {b : Nat} (hb : 2 ≤ b) (hb' : b ≤ 16) (n : Nat) : Inline (printNat b n) :=
  fun c hc => ne_of_isDigitIn (isDigitIn_of_mem_digitsFuel hb hb' c hc)

theorem inline_printEvent (e : Event) : Inline (printEvent e) := by
  have hpad : Inline (printPadded 3 e.id.milli.toNat) :=
    fun c hc => ne_of_isDigitIn ((numeral_printPadded 3 _).digits c hc)
  have hten : ∀ n, Inline (printNat 10 n) := inline_printNat (by omega) (by omega)
  have hhex : ∀ n, Inline (printNat 16 n) := inline_printNat (by omega) le_rfl
  simp only [printEvent, inline_append, inline_cons, hpad, hten, hhex]
  decide

theorem length_printEvent (h : e.id.milli.toNat < 1000) : (printEvent e).length ≤ 60 := by
  have hsec : (printNat 10 e.id.sec.toUInt64.toNat).length ≤ 20 :=
    length_digitsFuel_le _ (e.id.sec.toUInt64.toNat_lt.trans (by decide))
  have hserial : (printNat 10 e.id.serial.toNat).length ≤ 20 :=
    length_digitsFuel_le _ (e.id.serial.toNat_lt.trans (by decide))
  have htype : (printNat 16 e.type.toUInt32.toNat).length ≤ 8 :=
    length_digitsFuel_le _ (e.type.toUInt32.toNat_lt.trans_le (by decide))
  have hmilli : (printPadded 3 e.id.milli.toNat).length = 3 := length_printPadded h
  simp only [printEvent, length_append, length_cons]
  omega

theorem chkPtLines_fit (dev ino : UInt64) (h : Savable e) :
    ∀ line ∈ chkPtLines dev ino e, Inline line ∧ line.length + 2 ≤ maxLn := by
  have hnode : Inline (e.id.node.getD [45]) ∧ (e.id.node.getD [45]).length ≤ 900 := by
    cases hn : e.id.node with
    | none => decide
    | some s =>
      obtain ⟨-, hnl, hnul, hlen⟩ := h.node s hn
      refine ⟨fun c hc => ⟨?_, ?_⟩, hlen⟩
      · rintro rfl
        exact hnl hc
      · rintro rfl
        exact hnul hc
  have hdev : (printNat 16 dev.toUInt32.toNat).length ≤ 8 :=
    length_digitsFuel_le _ (dev.toUInt32.toNat_lt.trans_le (by decide))
  have hino : (printNat 10 ino.toUInt32.toNat).length ≤ 10 :=
    length_digitsFuel_le _ (ino.toUInt32.toNat_lt.trans (by decide))
  have hevent := length_printEvent h.milli
  have hlen : (ascii "dev=").length = 4 ∧ (ascii "inode=").length = 6 ∧
      (ascii "output=").length = 7 := by decide
  intro line hline
  simp only [chkPtLines, mem_cons, not_mem_nil, or_false] at hline
  rcases hline with rfl | rfl | rfl
  · refine ⟨?_, ?_⟩
    · simp only [inline_append, inline_cons, inline_printNat (b := 16) (by omega) le_rfl]
      decide
    · simp only [length_append, length_cons, maxLn]
      omega
  · refine ⟨?_, ?_⟩
    · simp only [inline_append, inline_printNat (b := 10) (by omega) (by omega)]
      decide
    · simp only [length_append, maxLn]
      omega
  · refine ⟨?_, ?_⟩
    · simp only [inline_append, inline_cons, hnode.1, inline_printEvent]
      decide
    · simp only [length_append, length_cons, maxLn]
      omega

theorem loadLine_newline (c : ChkPt) {line : Bytes} (h : Inline line) :
    loadLine c (line ++ [10]) = parseLine c line := by
  have hnul : 0 ∉ line ++ [10] := by
    intro hmem
    rcases mem_append.mp hmem with hmem | hmem
    · exact (h 0 hmem).2 rfl
    · cases (mem_singleton.mp hmem)
  rw [loadLine, untilNul_of_notMem hnul]
  simp

theorem foldlM_loadLine (c : ChkPt) {lines : List Bytes} (h : ∀ line ∈ lines, Inline line) :
    (lines.map (· ++ [10])).foldlM loadLine c = lines.foldlM parseLine c := by
  induction lines generalizing c with
  | nil => rfl
  | cons line lines ih =>
    rw [map_cons, foldlM_cons, foldlM_cons, loadLine_newline c (h line mem_cons_self)]
    congr 1
    simp_all

/-- The numbers of the log as the file has them. -/
def low (n : UInt64) : UInt64 := n.toUInt32.toUInt64

theorem foldlM_parseLine (dev ino : UInt64) (h : Savable e) :
    (chkPtLines dev ino e).foldlM parseLine ⟨0, 0, Event.zero⟩ =
      some ⟨low dev, low ino, e.asRead⟩ := by
  have hlow : ∀ n : UInt64, UInt64.ofNat n.toUInt32.toNat = low n := fun n => UInt64.ofNat_uInt32ToNat _
  have hdev : strtoulIn 16 (48 :: 120 :: printNat 16 dev.toUInt32.toNat) = some (low dev) := by
    rw [strtoulIn_hex (dev.toUInt32.toNat_lt.trans (by decide)), hlow]
  have hino' : strtoulIn 0 (printNat 10 ino.toUInt32.toNat) = some (low ino) := by
    by_cases hzero : ino.toUInt32.toNat = 0
    · rw [← hlow, hzero]
      decide +kernel
    · rw [strtoulIn_decimal (ino.toUInt32.toNat_lt.trans (by decide)) hzero, hlow]
  have hline₁ : ∀ c s, parseLine c (ascii "dev=" ++ s) =
      (strtoulIn 16 s).map fun dev => { c with dev } := fun c s => rfl
  have hline₂ : ∀ c s, parseLine c (ascii "inode=" ++ s) =
      (strtoulIn 0 s).map fun ino => { c with ino } := fun c s => rfl
  have hline₃ : ∀ c s, parseLine c (ascii "output=" ++ s) =
      (parseCheckptEvent s).map fun levent => { c with levent } := fun c s => rfl
  simp only [chkPtLines, foldlM_cons, foldlM_nil, hline₁, hline₂, hline₃, hdev, hino',
    parseCheckptEvent_output h]
  rfl

/-- **What is read back from a checkpoint.** -/
theorem loadChkPt_saved (dev ino : UInt64) (h : Savable e) : loadChkPt (saveChkPt dev ino e) =
      if low ino = 0 ∨ low dev = 0 then none else some ⟨low dev, low ino, e.asRead⟩ := by
  have hfit := chkPtLines_fit dev ino h
  have hlines : fgets maxLn [] (saveChkPt dev ino e) = (chkPtLines dev ino e).map (· ++ [10]) :=
    fgets_lines fun line hline => ⟨fun hmem => ((hfit line hline).1 10 hmem).1 rfl, (hfit line hline).2⟩
  rw [loadChkPt, hlines, foldlM_loadLine _ fun line hline => (hfit line hline).1,
    foldlM_parseLine dev ino h]
  rfl

/-- An event that can be written is read back, if neither number is cut to zero. -/
theorem loadChkPt_saveChkPt {dev ino : UInt64} (h : Writable e) (hdev : low dev ≠ 0)
    (hino : low ino ≠ 0) : loadChkPt (saveChkPt dev ino e) = some ⟨low dev, low ino, e⟩ := by
  have hdash : e.id.node.bind List.head? ≠ some 45 := by
    cases hn : e.id.node with
    | none => exact fun h => by cases h
    | some s => exact (h.node s hn).2.2.2.1
  rw [loadChkPt_saved dev ino h.savable, if_neg (not_or.mpr ⟨hino, hdev⟩), Event.asRead_eq_iff.mpr hdash]

theorem low_eq_iff {n : UInt64} : low n = n ↔ n.toNat < 2 ^ 32 := by
  have h : (low n).toNat = n.toNat % 2 ^ 32 := by
    rw [low, UInt32.toNat_toUInt64, UInt64.toNat_toUInt32]
  rw [← UInt64.toNat_inj, h]
  omega

/-- **A checkpoint is read back exactly if** both numbers have 32 bits and the name of the node does not
start with a dash. -/
theorem loadChkPt_eq_iff {dev ino : UInt64} (hdev : dev ≠ 0) (hino : ino ≠ 0) {e : Event}
    (h : Savable e) : loadChkPt (saveChkPt dev ino e) = some ⟨dev, ino, e⟩ ↔
      dev.toNat < 2 ^ 32 ∧ ino.toNat < 2 ^ 32 ∧ e.id.node.bind List.head? ≠ some 45 := by
  rw [loadChkPt_saved dev ino h, ← low_eq_iff, ← low_eq_iff, ← Event.asRead_eq_iff]
  constructor
  · intro heq
    split at heq
    · cases heq
    · injection heq with heq
      injection heq with h₁ h₂ h₃
      exact ⟨h₁, h₂, h₃⟩
  · rintro ⟨h₁, h₂, h₃⟩
    rw [h₁, h₂, h₃, if_neg (not_or.mpr ⟨hino, hdev⟩)]

/-- A login on a node. -/
def loginEvent : Event := ⟨⟨1700000000, 123, 42, some (ascii "host")⟩, 1112⟩

theorem loadChkPt_eq_iff_login :
    loadChkPt (saveChkPt 2049 77 loginEvent) = some ⟨2049, 77, loginEvent⟩ :=
  (loadChkPt_eq_iff (by decide) (by decide) ⟨by decide, fun s hs => by cases hs; decide⟩).mpr
    ⟨by decide, by decide, by decide⟩

/-- An inode number with more than 32 bits is cut. -/
theorem not_readsBack_inode :
    loadChkPt (saveChkPt 2049 0x10000004D .zero) ≠ some ⟨2049, 0x10000004D, .zero⟩ := by
  rw [loadChkPt_saved _ _ ⟨by decide, fun s hs => by cases hs⟩]
  intro h
  injection h with h
  injection h with _ h
  exact absurd h (by decide)

end LibAudit.Search
