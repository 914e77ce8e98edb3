import LibAudit.Spool.Resize

/-!
# Creating a queue file, and opening what is left of it

`q_open_file` makes a queue file in three steps: `open` creates it, `full_pwrite` writes the header,
and `posix_fallocate` reserves the space for the entries.  A later `q_open` takes a file of no bytes
for a new one, and tests the header and the size of any other.

* `qOpen_leftover`: whatever the schedule, `q_open` on a path where there is nothing leaves nothing
  there, a file with the first bytes of the header, or the finished file.
* `qOpen_accepts`: what `q_open` has seen of an existing file if it returns a queue.
* `recovers_iff`: the same `q_open` gives an empty queue afterwards exactly if there is nothing at the
  path, or if `Q_EXCL` was not asked for and the file is empty or finished, and not of `2 ^ 32 - 1`
  entries.
* `sizeChecked_iff`: the size test passes what `q_open` creates unless it has `2 ^ 32 - 1` entries, and
  passes nothing of another size than the one the header announces.
-/

namespace LibAudit.Spool

open Word Hoare List

/-! ## What is asked for -/

/-- The system a function leaves behind, however it ends. -/
def leftBy {α : Type} : EStateM.Result Fault Sys α → Sys
  | .ok _ s => s
  | .error _ s => s

/-- With a file system that works, `q_open` gives an empty queue. -/
def Recovers (qFlags : Flags) (path : String) (n es : Nat) (s : Sys) : Prop :=
  ∀ c, Smooth c → ∃ q s', qOpen qFlags path n es (s.withCalls c) = .ok q s' ∧
    Inv path n es ⟨s', q⟩ []

/-- The number of entries a header announces. -/
def headerEntries (fh : Bytes) : Nat := ofBytesBE ((fh.drop 16).take 4)

/-- The size test of `q_open_file` does what it is for. -/
structure SizeChecked (qFlags : Flags) (path : String) (n es : Nat) (s : Sys) : Prop where
  /-- A file that `q_open` creates at `path` passes it. -/
  created : ∀ c q s', qOpen qFlags path n es (s.withCalls c) = .ok q s' → ∃ fd,
    s'.names path = some fd ∧
      headerFits ((s'.inodes fd).slice 0 sizeofFileHeader) es (s'.inodes fd).size = true
  /-- What passes it has the size its header announces, so that every entry lies inside. -/
  size_eq : ∀ fh stSize, stSize ≠ 0 → headerFits fh es stSize = true →
    stSize = (headerEntries fh + 1) * es ∧ stSize < 2 ^ 64 ∧
      ∀ q : Queue, q.entrySize = es → ∀ i < headerEntries fh, entryOffset q i + es ≤ stSize

/-! ## What is left behind -/

section Leftover

variable {path : String} {n es : Nat} {s : Sys} {qFlags : Flags}

/-- What an attempt to create a queue file leaves at `path`. -/
inductive Leftover (path : String) (n es : Nat) (s : Sys) : Prop
  | absent (name : s.names path = none)
  | started (fd k : Nat) (name : s.names path = some fd)
      (file : s.inodes fd = File.empty.write ((fileHeader n es 0 0).take k) 0)
  | finished (fd : Nat) (name : s.names path = some fd) (file : s.inodes fd = newFile n es)

theorem headerPart_size (k : Nat) : (headerPart n es k).size = min k 32 := by
  have hlen : ((fileHeader n es 0 0).take k).length = min k 32 := by
    rw [length_take, length_fileHeader]
  show (if _ = [] then 0 else max 0 (0 + _)) = _
  split
  · rename_i hnil
    rw [← hlen, hnil]
    rfl
  · rw [hlen]
    omega

theorem qOpen_create_spec (hargs : argsOk qFlags n es = true) (hfile : qFlags.inFile = true)
    (hcreat : qFlags.creat = true) (hnew : s.names path = none) :
    Triple (· = s) (qOpen qFlags path n es)
      (fun _ s' => s'.names path = some s.nextIno ∧ s'.inodes s.nextIno = newFile n es)
      (fun _ => Leftover path n es) := by
  have hname : ∀ f s', ((s.created path).setFile s.nextIno f).Later s' →
      s'.names path = some s.nextIno ∧ s'.inodes s.nextIno = f := by
    intro f s' hl
    rw [hl.names, hl.inodes]
    exact ⟨if_pos rfl, Sys.setFile_inodes_self _ _ _⟩
  refine .bind ((qOpenNoResize_new (g := False) False.elim hargs hfile hcreat hnew).err ?_)
    fun q => .assume (fun _ hs => hs.2) ?_
  · rintro e s' ⟨hl | ⟨k, hl⟩, -⟩
    · exact .absent (by rw [hl.names]; exact hnew)
    · exact .started _ k (hname _ s' hl).1 (hname _ s' hl).2
  · rintro rfl
    exact .ite (fun _ => .pure _ fun s' hs => hname _ s' hs.1) fun hne => absurd rfl hne

/-- **What `q_open` leaves behind** where there was nothing, whatever the schedule. -/
theorem qOpen_leftover (hargs : argsOk qFlags n es = true) (hfile : qFlags.inFile = true)
    (hcreat : qFlags.creat = true) (hnew : s.names path = none) :
    Leftover path n es (leftBy (qOpen qFlags path n es s)) := by
  have hspec := qOpen_create_spec hargs hfile hcreat hnew s rfl
  cases hrun : qOpen qFlags path n es s with
  | ok q s' =>
    rw [hrun] at hspec
    exact .finished _ hspec.1 hspec.2
  | error e s' =>
    rw [hrun] at hspec
    exact hspec

end Leftover

/-! ## What an existing file must look like -/

section Existing

variable {path : String} {n es fd : Nat} {s : Sys} {qFlags : Flags}

/-- **What `q_open` has seen** of an existing file when it returns a queue. -/
theorem qOpen_accepts (hfile : qFlags.inFile = true) (hname : s.names path = some fd) :
    Triple (· = s) (qOpen qFlags path n es)
      (fun _ _ => (qFlags.creat && qFlags.excl) = false ∧ ((s.inodes fd).size = 0 ∨
        sizeofFileHeader ≤ (s.inodes fd).size ∧
          headerFits ((s.inodes fd).slice 0 sizeofFileHeader) es (s.inodes fd).size = true))
      (fun _ _ => True) := by
  refine .bind (Q := fun _ _ => (qFlags.creat && qFlags.excl) = false ∧
    ((s.inodes fd).size = 0 ∨ sizeofFileHeader ≤ (s.inodes fd).size ∧
      headerFits ((s.inodes fd).slice 0 sizeofFileHeader) es (s.inodes fd).size = true)) ?_ fun q =>
    .assume (fun _ hs => hs) fun hseen => fun s' _ => ?_
  swap
  · -- what comes after `q_open_no_resize` does not matter
    split
    · exact hseen
    · trivial
  refine qOpenNoResize_rule (g := False) False.elim (fun _ _ _ => trivial) (fun _ => trivial)
    (fun hno => absurd hfile hno) fun _ _ => qOpenFile_rule ((openFile_old (g := False) False.elim hname
    qFlags.creat qFlags.excl).err fun _ _ _ => trivial) False.elim (fun _ _ _ => trivial) fun hexcl => ?_
  refine .bind (Q := fun _ _ => (s.inodes fd).size = 0 ∨
    sizeofFileHeader ≤ (s.inodes fd).size ∧ headerFits ((s.inodes fd).slice 0 sizeofFileHeader) es
      (s.inodes fd).size = true) ?_ fun fh => .assume (fun _ hs => hs) fun hseen => ?_
  · rw [qFileHeader]
    refine .ite (fun h0 => ?_) fun _ => ?_
    · intro s₂ _
      split
      · exact .inl h0
      · trivial
    · refine .bind ((fullPreadLoop_spec (g := False) False.elim fd _ _ 0 [] le_rfl).err
        fun _ _ _ => trivial) fun fh => .assume (fun _ hs => hs.2) ?_
      rintro ⟨hwithin, rfl⟩
      refine .ite (fun hfits => .pure _ fun _ _ => .inr ⟨?_, hfits⟩) fun _ => .throw _ fun _ _ => trivial
      omega
  · intro s₂ _
    split
    · exact ⟨hexcl, hseen⟩
    · trivial

end Existing

/-! ## Opening what is left -/

section Recover

variable {path : String} {n es fd : Nat} {s : Sys} {qFlags : Flags}

theorem Recovers.accepts (h : Recovers qFlags path n es s) (hfile : qFlags.inFile = true)
    (hname : s.names path = some fd) :
    (qFlags.creat && qFlags.excl) = false ∧ ((s.inodes fd).size = 0 ∨
      sizeofFileHeader ≤ (s.inodes fd).size ∧
        headerFits ((s.inodes fd).slice 0 sizeofFileHeader) es (s.inodes fd).size = true) := by
  obtain ⟨q, s', hopen, -⟩ := h (fun _ => .done 1) fun _ => ⟨1, Nat.one_pos, rfl⟩
  have hseen : Triple (· = s.withCalls fun _ => .done 1) (qOpen qFlags path n es) _ _ :=
    qOpen_accepts hfile hname
  exact hseen.of_ok rfl hopen

theorem recovers_absent (hargs : argsOk qFlags n es = true) (hcreat : qFlags.creat = true)
    (hname : s.names path = none) : Recovers qFlags path n es s := by
  intro c hc
  obtain ⟨q, s', hopen, -, -, hinv⟩ := qOpen_create (s := s.withCalls c) hargs (fun t _ => hc t)
    hname fun _ => hcreat
  exact ⟨q, s', hopen, hinv⟩

theorem recovers_empty (hargs : argsOk qFlags n es = true) (hfile : qFlags.inFile = true)
    (hexcl : (qFlags.creat && qFlags.excl) = false) (hname : s.names path = some fd)
    (hempty : s.inodes fd = File.empty) : Recovers qFlags path n es s := by
  intro c hc
  have hs : (s.withCalls c).Succeeds := fun t _ => hc t
  obtain ⟨q, s', hok, -, -, hinv⟩ := qOpen_of_empty hs hargs hfile
    ((openFile_old (fun _ => hs) hname qFlags.creat qFlags.excl).weaken (fun _ _ h => ⟨h.1, h.2.1⟩)
      fun _ _ he => ⟨he.1, he.2.1, fun hgo => he.2.2 hgo hexcl⟩) hs hname hempty
  exact ⟨q, s', hok, hinv⟩

theorem newFile_header (hsz : Sizes n es) :
    (newFile n es).slice 0 sizeofFileHeader = fileHeader n es 0 0 := by
  rw [sizeofFileHeader, show (32 : Nat) = 24 + 8 from rfl, File.slice_append,
    (newFile_onDisk hsz).1.header, (newFile_onDisk hsz).2, fileHeader_eq]

theorem headerFits_newFile (hargs : argsOk qFlags n es = true) :
    headerFits ((newFile n es).slice 0 sizeofFileHeader) es (newFile n es).size = true ↔
      n + 1 < 2 ^ 32 := by
  have hsz := sizes_of_argsOk hargs
  rw [newFile_header hsz, (newFile_onDisk hsz).1.size]
  exact headerFits_fileHeader_iff hsz (argsOk_iff.mp hargs).2.2.2.2.2

/-- A header without the entries behind it does not pass. -/
theorem not_headerFits_headerPart (hsz : Sizes n es) :
    headerFits ((headerPart n es 32).slice 0 sizeofFileHeader) es 32 = false := by
  have hslice : (headerPart n es 32).slice 0 sizeofFileHeader = fileHeader n es 0 0 := by
    have := File.slice_write_self File.empty (fileHeader n es 0 0) 0
    rwa [length_fileHeader, ← headerPart_all] at this
  have hlt := hsz.lt
  have h32 := hsz.header_le
  have hpos := hsz.pos
  have hne : 32 ≠ (n + 1) % 2 ^ 32 * es % 2 ^ 64 := by
    rcases Nat.lt_or_ge (n + 1) (2 ^ 32) with hn | hn
    · rw [Nat.mod_eq_of_lt hn, Nat.mod_eq_of_lt hsz.mul_lt]
      have : 2 * es ≤ (n + 1) * es := Nat.mul_le_mul_right _ (by omega)
      omega
    · rw [show (n + 1) % 2 ^ 32 = 0 by omega, Nat.zero_mul, Nat.zero_mod]
      decide
  rw [hslice, headerFits, fileHeader_numEntries, ofBytesBE_bytesBE_of_lt (by omega),
    decide_eq_true hne, Bool.or_true, Bool.not_true, Bool.and_false]

/-- **When a second attempt succeeds.**  Let `q_open` create a queue file, and let any of its calls
fail, or the process die at one.  The same `q_open`, with a file system that works, gives an empty
queue exactly if nothing is at the path, or if `Q_EXCL` is not set and the file is still empty, or has
all its space and is not of `2 ^ 32 - 1` entries. -/
theorem recovers_iff (hargs : argsOk qFlags n es = true) (hfile : qFlags.inFile = true)
    (hcreat : qFlags.creat = true) (hnew : s.names path = none) (c : Nat → Outcome) :
    Recovers qFlags path n es (leftBy (qOpen qFlags path n es (s.withCalls c))) ↔
      (leftBy (qOpen qFlags path n es (s.withCalls c))).names path = none ∨
      qFlags.excl = false ∧ ∃ fd,
        (leftBy (qOpen qFlags path n es (s.withCalls c))).names path = some fd ∧
        (((leftBy (qOpen qFlags path n es (s.withCalls c))).inodes fd).size = 0 ∨
          ((leftBy (qOpen qFlags path n es (s.withCalls c))).inodes fd).size = (n + 1) * es ∧
            n + 1 < 2 ^ 32) := by
  have hsz := sizes_of_argsOk hargs
  have hleft : Leftover path n es (leftBy (qOpen qFlags path n es (s.withCalls c))) :=
    qOpen_leftover hargs hfile hcreat hnew
  generalize leftBy (qOpen qFlags path n es (s.withCalls c)) = s₁ at hleft ⊢
  have hexcl : (qFlags.creat && qFlags.excl) = false ↔ qFlags.excl = false := by
    rw [hcreat, Bool.true_and]
  have hslot : 2 * es ≤ (n + 1) * es := Nat.mul_le_mul_right _ (by have := hsz.pos; omega)
  have h32 := hsz.header_le
  cases hleft with
  | absent hname => exact ⟨fun _ => .inl hname, fun _ => recovers_absent hargs hcreat hname⟩
  | started fd k hname hpart =>
    have hsize : (s₁.inodes fd).size = min k 32 := by rw [hpart]; exact headerPart_size k
    simp only [hname, reduceCtorEq, false_or, Option.some.injEq, exists_eq_left']
    constructor
    · intro h
      obtain ⟨hnot, hseen⟩ := h.accepts hfile hname
      refine ⟨hexcl.1 hnot, hseen.imp_right fun ⟨hle, hfits⟩ => ?_⟩
      -- all of the header is there, and nothing behind it
      have hk : min k 32 = 32 := by
        rw [hsize] at hle
        exact Nat.le_antisymm (Nat.min_le_right _ _) hle
      have hall : s₁.inodes fd = headerPart n es 32 := by
        rw [hpart, headerPart_all, take_of_length_le]
        rw [length_fileHeader]
        omega
      rw [hall, headerPart_size, Nat.min_self, not_headerFits_headerPart hsz] at hfits
      cases hfits
    · rintro ⟨hnot, hcond⟩
      have h0 : k = 0 := by
        rw [hsize] at hcond
        omega
      subst h0
      exact recovers_empty hargs hfile (hexcl.2 hnot) hname (hpart.trans headerPart_zero)
  | finished fd hname hnewFile =>
    have hsize : (s₁.inodes fd).size = (n + 1) * es := by
      rw [hnewFile, (newFile_onDisk hsz).1.size]
    simp only [hname, reduceCtorEq, false_or, Option.some.injEq, exists_eq_left']
    constructor
    · intro h
      obtain ⟨hnot, hseen⟩ := h.accepts hfile hname
      refine ⟨hexcl.1 hnot, hseen.imp_right fun ⟨_, hfits⟩ => ⟨hsize, ?_⟩⟩
      rw [hnewFile] at hfits
      exact (headerFits_newFile hargs).1 hfits
    · rintro ⟨hnot, hcond⟩
      have hn : n + 1 < 2 ^ 32 := by
        rcases hcond with h0 | ⟨-, hn⟩
        · omega
        · exact hn
      intro c' hc'
      exact ((fileHolds_newFile hsz hname hnewFile).yields
        (argsOk_iff.mpr ⟨rfl, (argsOk_iff.mp hargs).2⟩) hn).2 c' hc' qFlags hfile (hexcl.2 hnot)

/-! ## The size test -/

theorem headerEntries_lt (fh : Bytes) : headerEntries fh < 2 ^ 32 := by
  have hlt := ofBytesLE_lt ((fh.drop 16).take 4).reverse
  have hlen : ((fh.drop 16).take 4).reverse.length ≤ 4 := by
    rw [length_reverse]
    exact length_take_le _ _
  calc headerEntries fh < 256 ^ ((fh.drop 16).take 4).reverse.length := hlt
    _ ≤ 256 ^ 4 := Nat.pow_le_pow_right (by decide) hlen
    _ = 2 ^ 32 := by norm_num

/-- **The size test is exact**: in a file that has any bytes, the sum that wraps around is never the
one that passes. -/
theorem size_eq_of_headerFits (hes : 0 < es) (hmax : es ≤ sizeMax) {fh : Bytes} {stSize : Nat}
    (h0 : stSize ≠ 0) (hfits : headerFits fh es stSize = true) :
    stSize = (headerEntries fh + 1) * es ∧ stSize < 2 ^ 64 := by
  have hlt := headerEntries_lt fh
  have htest : ¬ headerEntries fh > sizeMax / es - 1 ∧
      stSize = (headerEntries fh + 1) % 2 ^ 32 * es % 2 ^ 64 := by
    simp only [headerFits, Bool.and_eq_true, Bool.not_eq_true', Bool.or_eq_false_iff,
      decide_eq_false_iff_not, not_not] at hfits
    exact hfits.2
  obtain ⟨hle, hsize⟩ := htest
  have hn : headerEntries fh + 1 < 2 ^ 32 := by
    by_contra hge
    grind
  rw [Nat.mod_eq_of_lt hn] at hsize
  have hdiv : headerEntries fh + 1 ≤ sizeMax / es := by
    have := Nat.div_pos hmax hes
    omega
  have hmul : (headerEntries fh + 1) * es < 2 ^ 64 := by
    have := (Nat.le_div_iff_mul_le hes).1 hdiv
    unfold sizeMax at this
    omega
  omega

/-- A queue file whose number of entries has no successor in 32 bits does not pass. -/
theorem SizeChecked.lt (h : SizeChecked qFlags path n es s) (hargs : argsOk qFlags n es = true)
    (hfile : qFlags.inFile = true) (hcreat : qFlags.creat = true) (hnew : s.names path = none) :
    n + 1 < 2 ^ 32 := by
  have hsmooth : Smooth fun _ => .done 1 := fun _ => ⟨1, Nat.one_pos, rfl⟩
  obtain ⟨q, s', hopen, -⟩ := recovers_absent hargs hcreat hnew _ hsmooth
  obtain ⟨fd, hname, hfits⟩ := h.created _ q s' hopen
  obtain ⟨hname', hmade⟩ := (qOpen_create_spec (s := s.withCalls fun _ => .done 1) hargs hfile hcreat
    hnew).of_ok rfl hopen
  obtain rfl := Option.some_inj.mp (hname'.symm.trans hname)
  rw [hmade] at hfits
  exact (headerFits_newFile hargs).1 hfits

/-- **When the size test does what it is for**: unless the queue has `2 ^ 32 - 1` entries. -/
theorem sizeChecked_iff (hargs : argsOk qFlags n es = true) (hfile : qFlags.inFile = true)
    (hcreat : qFlags.creat = true) (hnew : s.names path = none) :
    SizeChecked qFlags path n es s ↔ n + 1 < 2 ^ 32 := by
  have hsz := sizes_of_argsOk hargs
  refine ⟨fun h => h.lt hargs hfile hcreat hnew, fun hn =>
    ⟨fun c q s' hopen => ?_, fun fh stSize h0 hfits => ?_⟩⟩
  · obtain ⟨hname, hmade⟩ := (qOpen_create_spec (s := s.withCalls c) hargs hfile hcreat hnew).of_ok
      rfl hopen
    refine ⟨_, hname, ?_⟩
    rw [hmade]
    exact (headerFits_newFile hargs).2 hn
  · have hes := hsz.header_le
    have hmax : es ≤ sizeMax := by
      have := hsz.es_lt
      unfold sizeMax
      omega
    obtain ⟨hsize, hlt⟩ := size_eq_of_headerFits (by omega) hmax h0 hfits
    refine ⟨hsize, hlt, fun q hq i hi => ?_⟩
    rw [entryOffset, hq, hsize]
    exact slot_add_le hi le_rfl

end Recover

/-! ## Two queue files -/

/-- `Q_IN_FILE | Q_CREAT`. -/
def createFlags : Flags := ⟨false, true, true, false, false, false⟩

/-- A queue of two entries passes the test. -/
theorem sizeChecked_two : SizeChecked createFlags "spool" 2 32 Sys.blank :=
  (sizeChecked_iff (by decide) rfl rfl rfl).2 (by decide)

/-- **A queue of `2 ^ 32 - 1` entries does not**, although `q_open` creates it. -/
theorem not_sizeChecked_uint32Max : argsOk createFlags uint32Max 32 = true ∧
    ¬ SizeChecked createFlags "spool" uint32Max 32 Sys.blank :=
  ⟨by decide, fun h => absurd (h.lt (by decide) rfl rfl rfl) (by decide)⟩

/-- A disk without space for the entries: `posix_fallocate` is the eighth call. -/
def outOfSpace (t : Nat) : Outcome := if t = 7 then .fail .enospc else .done (2 ^ 63)

/-- A process that dies after that call can start again. -/
theorem recovers_killed : Recovers createFlags "spool" 2 32 (leftBy (qOpen createFlags "spool" 2 32
      (Sys.blank.withCalls fun t => if t = 8 then .killed else .done (2 ^ 63)))) :=
  (recovers_iff (by decide) rfl rfl rfl _).2 (.inr ⟨rfl, 0, rfl, .inr ⟨rfl, by decide⟩⟩)

/-- **One that finds no space cannot**: the header stays behind, in a file of 32 bytes. -/
theorem not_recovers_outOfSpace : (∃ s, qOpen createFlags "spool" 2 32 (Sys.blank.withCalls outOfSpace) =
      .error (.errno .enospc) s) ∧
    ¬ Recovers createFlags "spool" 2 32
      (leftBy (qOpen createFlags "spool" 2 32 (Sys.blank.withCalls outOfSpace))) := by
  refine ⟨⟨_, rfl⟩, fun h => ?_⟩
  obtain ⟨-, hsize | ⟨-, hfits⟩⟩ := h.accepts rfl (show _ = some 0 from rfl)
  · exact absurd hsize (by decide)
  · exact absurd hfits (by decide)

end LibAudit.Spool
