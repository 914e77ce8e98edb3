import LibAudit.Spool.Refine

/-!
# Opening a spool queue, and whole runs

`qOpen_create` says that a queue opened afresh holds nothing, `qOpen_reopen` that a queue file
opened again holds what it held when it was closed.  Together with the simulation of the single
operations this makes any run of operations on a queue, with any number of closings and reopenings
among them, a run of a bounded FIFO of strings (`run_eq_fifo_run`).

One capacity is left out of the reopenings: with `2 ^ 32 - 1` entries the size test of
`q_open_file` compares the size of the file with `(file_entries + 1) * entry_size`, where the sum
is computed in 32 bits and wraps around to zero.
-/

namespace LibAudit.Spool

open Word Ring Hoare List Option File

/-! ## Reading the header back -/

section Header

variable {n es head len : Nat}

theorem length_fileHeader (n es head len : Nat) : (fileHeader n es head len).length = 32 := by
  simp [fileHeader_eq]

theorem take_drop_append {a b c : Bytes} {i k : Nat} (ha : a.length = i) (hb : b.length = k) :
    ((a ++ (b ++ c)).drop i).take k = b := by
  rw [drop_left' ha, take_left' hb]

theorem fileHeader_magic : (fileHeader n es head len).take 14 = fhMagic := by
  rw [fileHeader, append_assoc, append_assoc, append_assoc]
  exact take_left' rfl

theorem fileHeader_version : (fileHeader n es head len).getD 14 0 = fhVersion0 := rfl

theorem fileHeader_reserved : (fileHeader n es head len).getD 15 0 = 0 := rfl

theorem fileHeader_numEntries : ((fileHeader n es head len).drop 16).take 4 = bytesBE 4 n := by
  rw [fileHeader, append_assoc, append_assoc]
  exact take_drop_append rfl (length_bytesBE 4 n)

theorem fileHeader_entrySize : ((fileHeader n es head len).drop 20).take 4 = bytesBE 4 es := by
  rw [fileHeader, append_assoc]
  exact take_drop_append (by simp [fhMagic]) (length_bytesBE 4 es)

theorem fileHeader_queueHead : ((fileHeader n es head len).drop 24).take 4 = bytesBE 4 head := by
  rw [fileHeader_eq, fhState]
  exact take_drop_append (length_headerConst n es) (length_bytesBE 4 head)

theorem fileHeader_queueLength : ((fileHeader n es head len).drop 28).take 4 = bytesBE 4 len := by
  rw [fileHeader_eq, fhState, ← append_assoc, ← append_nil (bytesBE 4 len)]
  rw [take_drop_append (by simp) (length_bytesBE 4 len)]
  simp

theorem qFromHeader_ok (q : Queue) (fd : Nat) (hn : n < 2 ^ 32) (hh : head < n) (hl : len ≤ n)
    (s : Sys) : qFromHeader q fd (fileHeader n es head len) s =
      .ok { q with fd := some fd, numEntries := n, queueHead := head, queueLength := len } s := by
  rw [qFromHeader, fileHeader_numEntries, fileHeader_queueHead, fileHeader_queueLength,
    ofBytesBE_bytesBE_of_lt (by omega), ofBytesBE_bytesBE_of_lt (by omega),
    ofBytesBE_bytesBE_of_lt (by omega), if_neg (by omega)]
  rfl

/-- The header of a queue file passes the test of `q_open_file`, unless the number of entries is
the one whose successor does not fit 32 bits. -/
theorem headerFits_fileHeader_iff (hsz : Sizes n es) (hmax : n ≤ sizeMax / es - 1) :
    headerFits (fileHeader n es head len) es ((n + 1) * es) = true ↔ n + 1 < 2 ^ 32 := by
  have hmul := hsz.mul_lt
  have hpos : 0 < (n + 1) * es := Nat.mul_pos n.succ_pos (by have := hsz.header_le; omega)
  have hlt := hsz.lt
  rw [headerFits, fileHeader_magic, fileHeader_version, fileHeader_reserved,
    fileHeader_numEntries, fileHeader_entrySize, ofBytesBE_bytesBE_of_lt (by omega)]
  simp only [beq_self_eq_true, Bool.true_and, Bool.not_eq_true', Bool.or_eq_false_iff,
    decide_eq_false_iff_not, not_not]
  constructor
  · rintro ⟨-, hsize⟩
    by_contra hge
    rw [show (n + 1) % 2 ^ 32 = 0 by omega, Nat.zero_mul, Nat.zero_mod] at hsize
    omega
  · intro hn
    refine ⟨by omega, ?_⟩
    rw [Nat.mod_eq_of_lt hn, Nat.mod_eq_of_lt hmul]

end Header

/-! ## What a file holds -/

section File

variable {path : String} {n m es fd head : Nat} {held : List CString} {s : Sys} {st : St}
  {qFlags : Flags}

/-- The file at `path` is a queue file of `n` entries that holds the strings of `held`. -/
structure FileHolds (path : String) (n es fd head : Nat) (held : List CString) (s : Sys) :
    Prop where
  named : s.names path = some fd
  disk : OnDisk n es head held (s.inodes fd)
  state : (s.inodes fd).slice 24 8 = fhState head held.length
  head_lt : head < n
  length_le : held.length ≤ n

theorem Inv.fileHolds (h : Inv path n es st held) (hfd : st.q.fd = some fd) :
    FileHolds path n es fd st.q.queueHead held st.sys :=
  ⟨h.named fd hfd, h.disk fd hfd, h.state fd hfd, h.head_lt, h.length_le⟩

theorem FileHolds.congr {s' : Sys} (h : FileHolds path n es fd head held s)
    (hn : s'.names path = s.names path) (hi : s'.inodes fd = s.inodes fd) :
    FileHolds path n es fd head held s' :=
  ⟨hn.trans h.named, hi ▸ h.disk, hi ▸ h.state, h.head_lt, h.length_le⟩

theorem FileHolds.later {s' : Sys} (h : FileHolds path n es fd head held s) (hl : s.Later s') :
    FileHolds path n es fd head held s' :=
  h.congr (by rw [hl.names]) (by rw [hl.inodes])

theorem FileHolds.header (h : FileHolds path n es fd head held s) :
    (s.inodes fd).slice 0 sizeofFileHeader = fileHeader n es head held.length := by
  rw [sizeofFileHeader, show (32 : Nat) = 24 + 8 from rfl, slice_append, h.disk.header, h.state,
    fileHeader_eq]

/-- The queue structure before the file is looked at. -/
def initialQueue (qFlags : Flags) (n es : Nat) : Queue :=
  ⟨qFlags, none, if qFlags.inMemory then some ⟨n, fun _ => none⟩ else none, n, es, 0, 0⟩

theorem initialQueue_memory {mem : Memory} (h : (initialQueue qFlags n es).memory = some mem) :
    mem = ⟨n, fun _ => none⟩ := by
  simp only [initialQueue] at h
  simp_all

/-- An array of `NULL`s caches nothing, and nothing has to be cached that the file has. -/
theorem inMemory_initial (inFile : Bool) (hheld : held = [] ∨ inFile = true) :
    InMemory inFile n head held ⟨n, fun _ => none⟩ where
  allocated := rfl
  cached k c hk := by
    rcases hheld with rfl | hfile
    · simp at hk
    · exact .inr ⟨rfl, hfile⟩
  free := free_of_forall fun _ _ => rfl

/-- The queue on a file, as `q_open_no_resize` returns it.  The array has `m` entries, whatever the
number of entries in the file. -/
def oldQueue (qFlags : Flags) (m es fd n head len : Nat) : Queue :=
  { initialQueue qFlags m es with
    fd := some fd
    numEntries := n
    queueHead := head
    queueLength := len }

theorem inv_oldQueue (h : FileHolds path n es fd head held s) :
    Inv path n es ⟨s, oldQueue qFlags n es fd n head held.length⟩ held where
  __ := h
  numEntries := rfl
  entrySize := rfl
  length := rfl
  memory := fun mem (hm : (initialQueue qFlags n es).memory = some mem) => by
    rw [initialQueue_memory hm]
    exact inMemory_initial _ (.inr rfl)
  named := fun fd' hfd => some_inj.mp hfd ▸ h.named
  disk := fun fd' hfd => some_inj.mp hfd ▸ h.disk
  state := fun fd' hfd => some_inj.mp hfd ▸ h.state
  somewhere := .inr rfl

/-- A new queue file: the header, and `n` entries nothing has been written to. -/
def newFile (n es : Nat) : File :=
  (empty.write (fileHeader n es 0 0) 0).fallocate ((n + 1) * es)

theorem newFile_onDisk (hsz : Sizes n es) :
    OnDisk n es 0 [] (newFile n es) ∧ (newFile n es).slice 24 8 = fhState 0 0 := by
  have hslice := slice_write_self empty (fileHeader n es 0 0) 0
  rw [length_fileHeader, show (32 : Nat) = 24 + 8 from rfl, slice_append, fileHeader_eq,
    ← fileHeader_eq] at hslice
  obtain ⟨hconst, hstate⟩ := append_inj (hslice.trans (fileHeader_eq n es 0 0)) (by simp)
  refine ⟨⟨?_, hconst, holds_nil⟩, hstate⟩
  have hlen : (empty.write (fileHeader n es 0 0) 0).size = 32 := by
    have hne : fileHeader n es 0 0 ≠ [] := by
      intro h
      simpa [h] using length_fileHeader n es 0 0
    simp [write, hne, empty, length_fileHeader]
  show max _ _ = _
  rw [hlen]
  have h1 := hsz.header_le
  have h2 := le_slot es n
  omega

theorem fileHolds_newFile (hsz : Sizes n es) (hname : s.names path = some fd)
    (hnew : s.inodes fd = newFile n es) : FileHolds path n es fd 0 [] s :=
  ⟨hname, hnew ▸ (newFile_onDisk hsz).1, hnew ▸ (newFile_onDisk hsz).2, hsz.pos, Nat.zero_le _⟩

/-- The file has the first `k` bytes of the header. -/
def headerPart (n es k : Nat) : File := empty.write ((fileHeader n es 0 0).take k) 0

theorem headerPart_zero : headerPart n es 0 = empty := by
  rw [headerPart, take_zero, write_nil]

theorem headerPart_all : headerPart n es 32 = empty.write (fileHeader n es 0 0) 0 := by
  rw [headerPart, take_of_length_le (length_fileHeader n es 0 0).le]

end File

/-! ## `q_open_file` -/

section Opening

variable {g : Prop} {path : String} {n m es fd head : Nat} {held : List CString} {s s₁ : Sys} {q : Queue}
  {qFlags : Flags} {P : Sys → Prop} {Q : Queue → Sys → Prop} {E : Fault → Sys → Prop}

theorem openFile_old (hg : g → s.Succeeds) (hname : s.names path = some fd) (creat excl : Bool) :
    Triple s.Later (openFile path creat excl)
      (fun fd' s' => s.Later s' ∧ fd' = fd ∧ (creat && excl) = false)
      (fun e s' => s.Later s' ∧ StoppedUnless g ((creat && excl) = false) e) := by
  refine .bind ((call_spec hg).weaken (fun _ _ hs => hs.1)
    fun _ _ he => ⟨he.1, he.2.unless _⟩) fun _ => .read fun s₁ hl => ?_
  rw [hl.names, hname]
  refine .ite (fun h => .throw _ fun s' hl' => ?_) fun h => .pure _ fun s' hl' => ?_
  · exact ⟨hl', (fun h => by cases h), fun _ hf => by simp [hf] at h⟩
  · exact ⟨hl', rfl, by simpa using h⟩

/-- A system with a new, empty file at `tmp`. -/
def Sys.created (s : Sys) (tmp : String) : Sys :=
  { s with
    inodes := fun j => if j = s.nextIno then empty else s.inodes j
    names := fun p => if p = tmp then some s.nextIno else s.names p
    nextIno := s.nextIno + 1 }

theorem openFile_new (hg : g → s.Succeeds) (hnew : s.names path = none) (excl : Bool) :
    Triple s.Later (openFile path true excl) (fun fd s' => (s.created path).Later s' ∧ fd = s.nextIno)
      (fun e s' => s.Later s' ∧ Stopped g e) := by
  refine .bind ((call_spec hg).post fun _ _ hs => hs.1) fun _ => .get_bind fun s₁ hl => ?_
  rw [hl.names, hnew]
  rintro s₂ rfl
  obtain ⟨t, ht, rfl⟩ := hl
  exact ⟨⟨t, ht, rfl⟩, rfl⟩

/-- Once the file is open, everything up to the header goes through without a trace. -/
theorem qOpenFile_rule {p : Prop} (hopen : Triple P (openFile path q.flags.creat q.flags.excl)
      (fun fd' s' => s₁.Later s' ∧ fd' = fd ∧ p) E) (hg : g → s₁.Succeeds)
    (hE : ∀ e s', s₁.Later s' ∧ Stopped g e → E e s')
    (hrest : p → Triple s₁.Later (qFileHeader q fd (s₁.inodes fd).size >>= qFromHeader q fd) Q E) :
    Triple P (qOpenFile q path) Q E := by
  have hcall := (discardCall_spec hg).err hE
  refine hopen.bind fun fd' => .assume (fun _ hs => hs.2) ?_
  rintro ⟨rfl, hp⟩
  refine (hcall.pre fun _ hs => hs.1).bind fun _ => hcall.bind fun _ =>
    ((tryLock_spec hg).err hE).bind fun _ => hcall.bind fun _ => .read fun s' hl => ?_
  rw [hl.inodes]
  exact hrest hp

/-- Before the file is opened, the arguments are checked and the array is allocated. -/
theorem qOpenNoResize_rule (hg : g → s.Succeeds) (hE : ∀ e s', s.Later s' ∧ Stopped g e → E e s')
    (hargs : argsOk qFlags n es ≠ true → E (.errno .einval) s)
    (hmemory : qFlags.inFile ≠ true → ∀ s', s.Later s' → Q (initialQueue qFlags n es) s')
    (hfile : argsOk qFlags n es = true → qFlags.inFile = true →
      Triple s.Later (qOpenFile (initialQueue qFlags n es) path) Q E) :
    Triple (· = s) (qOpenNoResize qFlags path n es) Q E := by
  have hcall := (discardCall_spec hg).err hE
  refine .ite (fun hok => ?_) fun hno => .throw _ fun s' hs => hs ▸ hargs hno
  refine .bind (hcall.pre fun _ hs => hs ▸ Sys.Later.refl _) fun _ => .bind
    (Q := fun mem s' => s.Later s' ∧ mem = (initialQueue qFlags n es).memory) ?_ fun mem =>
    .assume (fun _ hs => hs.2) ?_
  · refine .ite (fun hmem => hcall.bind fun _ => .pure _ fun s' hl => ?_)
      fun hmem => .pure _ fun s' hl => ?_
    · exact ⟨hl, (if_pos hmem).symm⟩
    · exact ⟨hl, (if_neg hmem).symm⟩
  rintro rfl
  exact .pre (.ite (hfile hok) fun hno => .pure _ (hmemory hno)) fun _ hs => hs.1

/-! ## A file that exists -/

theorem qFileHeader_old (hg : g → s.Succeeds) (hsz : Sizes n es) (hmax : n ≤ sizeMax / es - 1)
    (h : FileHolds path n es fd head held s) (hes : q.entrySize = es) :
    Triple s.Later (qFileHeader q fd (s.inodes fd).size)
      (fun fh s' => s.Later s' ∧ fh = fileHeader n es head held.length ∧ n + 1 < 2 ^ 32)
      (fun e s' => s.Later s' ∧ StoppedUnless g (n + 1 < 2 ^ 32) e) := by
  have hpos := le_slot es n
  have h32 := hsz.header_le
  have hread := fullPread_spec hg fd sizeofFileHeader 0 (by
    rw [h.disk.size, sizeofFileHeader]
    omega)
  rw [h.header] at hread
  rw [h.disk.size, qFileHeader, if_neg (by omega), hes]
  refine .bind (hread.err fun _ _ he => ⟨he.1, he.2.unless _⟩) fun fh => .assume (fun _ hs => hs.2) ?_
  rintro rfl
  refine .ite (fun hfits => .pure _ fun s' hs => ?_) fun hfits => .throw _ fun s' hs => ?_
  · exact ⟨hs.1, rfl, (headerFits_fileHeader_iff hsz hmax).1 hfits⟩
  · exact ⟨hs.1, (fun h => by cases h), fun _ hn =>
      hfits ((headerFits_fileHeader_iff hsz hmax).2 hn)⟩

/-- `q_open` gets to the header of a file that exists. -/
structure Opens (qFlags : Flags) (m es : Nat) : Prop where
  args : argsOk qFlags m es = true
  inFile : qFlags.inFile = true
  notExcl : (qFlags.creat && qFlags.excl) = false

/-- **Opening an existing file changes nothing**, whether it works or not. -/
theorem qOpenNoResize_old (hg : g → s.Succeeds) (hsz : Sizes n es) (hmax : n ≤ sizeMax / es - 1)
    (h : FileHolds path n es fd head held s) :
    Triple (· = s) (qOpenNoResize qFlags path m es)
      (fun q s' => s.Later s' ∧ (qFlags.inFile = false ∧ q.numEntries = m ∨
        Opens qFlags m es ∧ n + 1 < 2 ^ 32 ∧ q = oldQueue qFlags m es fd n head held.length))
      (fun e s' => s.Later s' ∧ StoppedUnless g (Opens qFlags m es ∧ n + 1 < 2 ^ 32) e) := by
  have hstop : ∀ e s', s.Later s' ∧ Stopped g e →
      s.Later s' ∧ StoppedUnless g (Opens qFlags m es ∧ n + 1 < 2 ^ 32) e :=
    fun e s' he => ⟨he.1, he.2.unless _⟩
  refine qOpenNoResize_rule hg hstop (fun hno => ⟨.refl _, (fun h => by cases h),
    fun _ hp => hno hp.1.args⟩) (fun hno s' hl => ⟨hl, .inl ⟨by simpa using hno, rfl⟩⟩)
    fun hargs hfile => ?_
  refine qOpenFile_rule ((openFile_old hg h.named qFlags.creat qFlags.excl).err
    fun _ _ he => ⟨he.1, he.2.1, fun hgo hp => he.2.2 hgo hp.1.notExcl⟩) hg hstop fun hexcl => ?_
  refine .bind ((qFileHeader_old hg hsz hmax h rfl).err
    fun _ _ he => ⟨he.1, he.2.1, fun hgo hp => he.2.2 hgo hp.2⟩) fun fh => ?_
  rintro s₂ ⟨hl, rfl, hn⟩
  rw [qFromHeader_ok _ _ hsz.lt h.head_lt h.length_le]
  exact ⟨hl, .inr ⟨⟨hargs, hfile, hexcl⟩, hn, rfl⟩⟩

/-! ## A file that is empty -/

theorem qCreateFile_spec (hg : g → s.Succeeds) (hsz : Sizes n es) (hempty : s.inodes fd = empty) :
    Triple s.Later (qCreateFile (initialQueue qFlags n es) fd)
      (fun fh s' => (s.setFile fd (newFile n es)).Later s' ∧ fh = fileHeader n es 0 0)
      (fun e s' => (∃ k, (s.setFile fd (headerPart n es k)).Later s') ∧ Stopped g e) := by
  have hwrite := fullPwrite_spec hg fd (fileHeader n es 0 0) 0
  rw [hempty, ← headerPart_all] at hwrite
  have hcall : Triple (s.setFile fd (headerPart n es 32)).Later (discard call : SysM Unit)
      (fun _ => (s.setFile fd (headerPart n es 32)).Later)
      (fun e s' => (∃ k, (s.setFile fd (headerPart n es k)).Later s') ∧ Stopped g e) :=
    (discardCall_spec (s := s.setFile fd (headerPart n es 32)) hg).err
      fun _ _ he => ⟨⟨32, he.1⟩, he.2⟩
  refine .bind hwrite fun _ => .bind
    (.ite (fun _ => hcall) fun _ => .pure _ fun _ => id) fun _ => hcall.bind fun _ => .bind
    (Q := fun _ => (s.setFile fd (newFile n es)).Later) (.modify fun s' hl => ?_)
    fun _ => .pure _ fun s' hl => ⟨hl, rfl⟩
  have hlen : ((initialQueue qFlags n es).numEntries + 1) * (initialQueue qFlags n es).entrySize %
      2 ^ 64 = (n + 1) * es := Nat.mod_eq_of_lt hsz.mul_lt
  have hnew := hl.setFile fd (newFile n es)
  rw [Sys.setFile_setFile] at hnew
  rw [hlen, hl.inodes, Sys.setFile_inodes_self, headerPart_all]
  exact hnew

/-- **A file that is empty once it is open** becomes a queue file, or is left with a part of the
header. -/
theorem qOpenNoResize_empty (hg : g → s.Succeeds) (hargs : argsOk qFlags n es = true)
    (hfile : qFlags.inFile = true) (hopen : Triple s.Later (openFile path qFlags.creat qFlags.excl)
      (fun fd' s' => s₁.Later s' ∧ fd' = fd) (fun e s' => s.Later s' ∧ Stopped g e))
    (hg₁ : g → s₁.Succeeds) (hempty : s₁.inodes fd = empty) :
    Triple (· = s) (qOpenNoResize qFlags path n es)
      (fun q s' => (s₁.setFile fd (newFile n es)).Later s' ∧ q = oldQueue qFlags n es fd n 0 0)
      (fun e s' => (s.Later s' ∨ ∃ k, (s₁.setFile fd (headerPart n es k)).Later s') ∧
        Stopped g e) := by
  have hsz := sizes_of_argsOk hargs
  have hself : s₁.setFile fd (headerPart n es 0) = s₁ := by
    rw [headerPart_zero, ← hempty, Sys.setFile_self]
  refine qOpenNoResize_rule hg (fun _ _ he => ⟨.inl he.1, he.2⟩) (fun hno => absurd hargs hno)
    (fun hno => absurd hfile hno) fun _ _ => qOpenFile_rule (hopen.weaken
      (fun _ _ hs => ⟨hs.1, hs.2, trivial⟩) fun _ _ he => ⟨.inl he.1, he.2⟩)
    hg₁ (fun _ _ he => ⟨.inr ⟨0, by rw [hself]; exact he.1⟩, he.2⟩) fun _ => ?_
  rw [hempty, qFileHeader, if_pos (show empty.size = 0 from rfl)]
  refine .bind ((qCreateFile_spec hg₁ hsz hempty).err
    fun _ _ he => ⟨.inr he.1, he.2⟩) fun fh => ?_
  rintro s₂ ⟨hl, rfl⟩
  rw [qFromHeader_ok _ _ hsz.lt hsz.pos (Nat.zero_le _)]
  exact ⟨hl, rfl⟩

/-- The same where there is nothing at `path`. -/
theorem qOpenNoResize_new (hg : g → s.Succeeds) (hargs : argsOk qFlags n es = true)
    (hfile : qFlags.inFile = true) (hcreat : qFlags.creat = true) (hnew : s.names path = none) :
    Triple (· = s) (qOpenNoResize qFlags path n es)
      (fun q s' => ((s.created path).setFile s.nextIno (newFile n es)).Later s' ∧
        q = oldQueue qFlags n es s.nextIno n 0 0)
      (fun e s' => (s.Later s' ∨
        ∃ k, ((s.created path).setFile s.nextIno (headerPart n es k)).Later s') ∧ Stopped g e) :=
  qOpenNoResize_empty hg hargs hfile (hcreat ▸ openFile_new hg hnew qFlags.excl) hg (if_pos rfl)

/-! ## When the calls succeed -/

/-- When `q_open` comes back with the capacity it was asked for, there was nothing to resize. -/
theorem qOpen_of_noResize {s' : Sys} (h : qOpenNoResize qFlags path n es s = .ok q s')
    (hn : q.numEntries = n) : qOpen qFlags path n es s = .ok q s' := by
  rw [qOpen, bind_ok h, if_pos hn]
  rfl

theorem qOpen_of_empty (hs : s.Succeeds) (hargs : argsOk qFlags n es = true)
    (hfile : qFlags.inFile = true) (hopen : Triple s.Later (openFile path qFlags.creat qFlags.excl)
      (fun fd' s' => s₁.Later s' ∧ fd' = fd) (fun e s' => s.Later s' ∧ Stopped True e))
    (hs₁ : s₁.Succeeds) (hname : s₁.names path = some fd) (hempty : s₁.inodes fd = empty) :
    ∃ q s', qOpen qFlags path n es s = .ok q s' ∧ s'.Succeeds ∧ q.fd.isSome = qFlags.inFile ∧
      Inv path n es ⟨s', q⟩ [] := by
  obtain ⟨q, s', hok, hl, rfl⟩ := ((qOpenNoResize_empty (fun _ => hs) hargs hfile hopen (fun _ => hs₁)
    hempty).err fun _ _ he => he.2.2 trivial).total rfl
  have hholds : FileHolds path n es fd 0 [] (s₁.setFile fd (newFile n es)) :=
    fileHolds_newFile (sizes_of_argsOk hargs) hname (Sys.setFile_inodes_self _ _ _)
  exact ⟨_, s', qOpen_of_noResize hok rfl, hl.succeeds (hs₁.setFile _ _), hfile.symm,
    inv_oldQueue (hholds.later hl)⟩

/-- **A new queue is empty.** -/
theorem qOpen_create (hargs : argsOk qFlags n es = true) (hs : s.Succeeds)
    (hnew : s.names path = none) (hcreat : qFlags.inFile = true → qFlags.creat = true) :
    ∃ q s', qOpen qFlags path n es s = .ok q s' ∧ s'.Succeeds ∧
      q.fd.isSome = qFlags.inFile ∧ Inv path n es ⟨s', q⟩ [] := by
  cases hf : qFlags.inFile with
  | true =>
    rw [← hf]
    exact qOpen_of_empty hs hargs hf (hcreat hf ▸ openFile_new (fun _ => hs) hnew qFlags.excl)
      (show (s.created path).Succeeds from hs) (if_pos rfl) (if_pos rfl)
  | false =>
    have hopen : Triple (· = s) (qOpenNoResize qFlags path n es)
        (fun q s' => s.Later s' ∧ q = initialQueue qFlags n es) fun _ _ => False :=
      qOpenNoResize_rule (fun _ : True => hs) (fun _ _ he => he.2.2 trivial) (fun hno => hno hargs)
        (fun _ s' hl => ⟨hl, rfl⟩) fun _ hfile => by rw [hf] at hfile; cases hfile
    obtain ⟨q, s', hok, hl, rfl⟩ := hopen.total rfl
    refine ⟨_, s', qOpen_of_noResize hok rfl, hl.succeeds hs, rfl, ?_⟩
    have hmem : qFlags.inMemory = true := by
      have := (argsOk_iff.mp hargs).1
      rwa [hf, Bool.or_false] at this
    exact
      { numEntries := rfl
        entrySize := rfl
        head_lt := (sizes_of_argsOk hargs).pos
        length := rfl
        length_le := Nat.zero_le _
        memory := fun mem hm => by
          rw [initialQueue_memory hm]
          exact inMemory_initial _ (.inl rfl)
        named := fun fd hfd => by cases hfd
        disk := fun fd hfd => by cases hfd
        state := fun fd hfd => by cases hfd
        somewhere := .inl (by simp [initialQueue, hmem]) }

/-- **A queue file keeps its strings**: opened again with the same capacity, it holds what it held
before. -/
theorem qOpen_reopen (hargs : argsOk qFlags n es = true) (hn : n + 1 < 2 ^ 32)
    (hfile : qFlags.inFile = true) (hexcl : (qFlags.creat && qFlags.excl) = false) (hs : s.Succeeds)
    (h : FileHolds path n es fd head held s) :
    ∃ q s', qOpen qFlags path n es s = .ok q s' ∧ s'.Succeeds ∧ q.fd.isSome = true ∧
      Inv path n es ⟨s', q⟩ held := by
  obtain ⟨q, s', hok, hl, hq⟩ := ((qOpenNoResize_old (fun _ : True => hs) (sizes_of_argsOk hargs)
    (argsOk_iff.mp hargs).2.2.2.2.2 h).err
    fun _ _ he => he.2.2 trivial ⟨⟨hargs, hfile, hexcl⟩, hn⟩).total rfl
  rcases hq with ⟨hno, -⟩ | ⟨-, -, rfl⟩
  · rw [hfile] at hno
    cases hno
  · exact ⟨_, s', qOpen_of_noResize hok rfl, hl.succeeds hs, rfl, inv_oldQueue (h.later hl)⟩

end Opening

/-! ## Runs -/

section Runs

variable {path : String} {n es : Nat}

/-- The reopenings of a run: only of a queue kept in a file, with flags that open an existing
file, and not of a queue of `2 ^ 32 - 1` entries. -/
def ReopensOk (n : Nat) (inFile : Bool) (ops : List Op) : Prop :=
  ∀ qFlags, Op.reopen qFlags ∈ ops → inFile = true ∧ qFlags.inFile = true ∧
    (qFlags.creat && qFlags.excl) = false ∧ n + 1 < 2 ^ 32

/-- **One operation on the queue is one operation on the FIFO.** -/
theorem step_refines {qFlags : Flags} (hargs : argsOk qFlags n es = true) {st : St}
    {held : List CString} (hs : st.sys.Succeeds) (h : Inv path n es st held) (op : Op)
    (hop : ReopensOk n st.q.fd.isSome [op]) :
    (step path n es op st).1 = (Fifo.step n es op held).1 ∧
      (step path n es op st).2.sys.Succeeds ∧
      (step path n es op st).2.q.fd.isSome = st.q.fd.isSome ∧
      Inv path n es (step path n es op st).2 (Fifo.step n es op held).2 := by
  have hsz := sizes_of_argsOk hargs
  cases op with
  | append data =>
    simp only [step, Fifo.step]
    by_cases hfull : held.length = n
    · rw [qAppend_full h hfull, if_pos hfull]
      exact ⟨rfl, hs, rfl, h⟩
    · rw [if_neg hfull]
      by_cases hlong : es < data.strlen + 1
      · rw [qAppend_tooLong h hfull hlong, if_pos hlong]
        exact ⟨rfl, hs, rfl, h⟩
      · obtain ⟨st', hok, hs', hfd, hinv⟩ := qAppend_ok hsz hs h hfull hlong
        rw [hok, if_neg hlong]
        exact ⟨rfl, hs', by rw [hfd], hinv⟩
  | peek size =>
    cases held with
    | nil =>
      simp only [step, Fifo.step, qPeek_empty h size]
      exact ⟨trivial, hs, trivial, h⟩
    | cons c held =>
      obtain ⟨st', heq, hs', hfd, hinv⟩ := qPeek_cons hs h size
      simp only [step, Fifo.step, heq, qPeekCopy, CString.length_withNul]
      by_cases hsmall : size < c.strlen + 1
      · rw [if_pos hsmall, if_pos hsmall]
        exact ⟨rfl, hs', congrArg Option.isSome hfd, hinv⟩
      · rw [if_neg hsmall, if_neg hsmall]
        exact ⟨rfl, hs', congrArg Option.isSome hfd, hinv⟩
  | dropHead =>
    cases held with
    | nil =>
      simp only [step, Fifo.step, qDropHead_empty h]
      exact ⟨trivial, hs, trivial, h⟩
    | cons c held =>
      obtain ⟨st', hok, hs', hfd, hinv⟩ := qDropHead_ok hsz hs h
      simp only [step, Fifo.step, hok]
      exact ⟨trivial, hs', by rw [hfd], hinv⟩
  | reopen qFlags' =>
    obtain ⟨hin, hfile, hexcl, hn⟩ := hop qFlags' (mem_singleton_self _)
    have hargs' : argsOk qFlags' n es = true := by
      obtain ⟨-, hrest⟩ := argsOk_iff.mp hargs
      exact argsOk_iff.mpr ⟨by simp [hfile], hrest⟩
    obtain ⟨fd, hfd⟩ := isSome_iff_exists.mp hin
    obtain ⟨q, s', hok, hs', hfd', hinv⟩ := qOpen_reopen hargs' hn hfile hexcl hs (h.fileHolds hfd)
    simp only [step, Fifo.step, hok]
    exact ⟨trivial, hs', hfd'.trans hin.symm, hinv⟩

theorem run_refines {qFlags : Flags} (hargs : argsOk qFlags n es = true) :
    ∀ (ops : List Op) (st : St) (held : List CString), st.sys.Succeeds → Inv path n es st held →
      ReopensOk n st.q.fd.isSome ops → run path n es ops st = Fifo.run n es ops held
  | [], _, _, _, _, _ => rfl
  | op :: ops, st, held, hs, h, hops => by
    obtain ⟨hreply, hs', hfd, hinv⟩ := step_refines hargs hs h op fun qFlags hmem =>
      hops qFlags (mem_cons.mpr (.inl (mem_singleton.mp hmem)))
    have hrest := run_refines hargs ops _ _ hs' hinv
      (by rw [hfd]; exact fun qFlags hmem => hops qFlags (mem_cons_of_mem _ hmem))
    rw [run_cons, Fifo.run_cons, hreply, hrest, qQueueLength, hinv.length]

/-- **The spool queue is a bounded FIFO.**  Open a queue of any accepted size, in any of the three
modes, and perform any operations on it: as long as the system calls succeed, every answer and
every `q_queue_length` is that of a FIFO of at most `n` strings. -/
theorem run_eq_fifo_run {qFlags : Flags} {s : Sys} (hargs : argsOk qFlags n es = true)
    (hs : s.Succeeds) (hnew : s.names path = none)
    (hcreat : qFlags.inFile = true → qFlags.creat = true) {ops : List Op}
    (hops : ReopensOk n qFlags.inFile ops) :
    ∃ q s', qOpen qFlags path n es s = .ok q s' ∧
      run path n es ops ⟨s', q⟩ = Fifo.run n es ops [] := by
  obtain ⟨q, s', hopen, hs', hfd, hinv⟩ := qOpen_create hargs hs hnew hcreat
  exact ⟨q, s', hopen, run_refines hargs ops ⟨s', q⟩ [] hs' hinv (by rw [hfd]; exact hops)⟩

end Runs

/-- A directory with nothing in it, on a system where every call transfers all it is asked to. -/
def Sys.blank : Sys := ⟨fun _ => empty, fun _ => none, 0, fun _ => .done (2 ^ 63), 0⟩

theorem Sys.blank_succeeds : Sys.blank.Succeeds := fun _ _ => ⟨2 ^ 63, by decide, rfl⟩

/-- A queue kept in memory and in a file, closed and opened again while it holds a string. -/
theorem run_eq_fifo_run_reopened :
    ∃ q s', qOpen ⟨true, true, true, true, true, false⟩ "spool" 2 32 Sys.blank = .ok q s' ∧
      run "spool" 2 32 [.append ⟨[97], by decide⟩, .reopen ⟨false, true, false, false, false, false⟩,
        .peek 8970, .dropHead] ⟨s', q⟩ =
      Fifo.run 2 32 [.append ⟨[97], by decide⟩, .reopen ⟨false, true, false, false, false, false⟩,
        .peek 8970, .dropHead] [] :=
  run_eq_fifo_run (by decide) Sys.blank_succeeds rfl (fun _ => rfl) fun qFlags hmem => by
    obtain rfl : qFlags = ⟨false, true, false, false, false, false⟩ := by simpa using hmem
    decide

/-- A full queue looks no further: a string too long for any entry is answered `ENOSPC`. -/
theorem qAppend_tooLong_when_full :
    ∃ q s', qOpen ⟨true, false, false, false, false, false⟩ "spool" 1 32 Sys.blank = .ok q s' ∧
      run "spool" 1 32 [.append ⟨[97], by decide⟩, .append ⟨List.replicate 32 97, by decide⟩]
        ⟨s', q⟩ = [(.ret 0, 1), (.failed (.errno .enospc), 1)] ∧
      32 < (CString.mk (List.replicate 32 97) (by decide)).strlen + 1 :=
  ⟨_, _, rfl, by decide, by decide⟩

end LibAudit.Spool
