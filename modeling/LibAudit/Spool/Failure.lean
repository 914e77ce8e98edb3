import LibAudit.Lib.TwoRuns
import LibAudit.Spool.Crash

/-!
# Calls on a queue that fail

`q_append` and `q_drop_head` have two phases: the queue and the entry in the file are changed first, and
then `sync_fh_state` writes the state.  A call that fails should leave the queue as it was.

In the first phase it does (`firstPhase_fails`): the queue itself is the same, and what may have been
written to the file lies in an entry that is not in use.  `LooksSame` says that two queues differ in no
more than that, and `run_looksSame` that no later calls can tell them apart, however the system calls
under them come out.  If `sync_fh_state` fails the queue has been changed already, and the number of
entries shows it.  So `unchangedOnFailure_iff` is the whole truth.
-/

namespace LibAudit.Spool

open Ring Hoare List File

/-! ## What is asked for -/

/-- The calls that change a queue. -/
inductive Change
  | append (data : CString)
  | dropHead

/-- The call. -/
def Change.perform : Change → QM Unit
  | .append data => qAppend data
  | .dropHead => qDropHead

/-- What it does before the state is written. -/
def Change.firstPhase : Change → QM Unit
  | .append data => qAppendNoSyncFhState data
  | .dropHead => qDropHeadMemoryOnly

/-- From here on the system calls come out as `c` says. -/
def St.resume (c : Nat → Outcome) (st : St) : St :=
  { st with sys := { st.sys with calls := c, tick := 0 } }

/-- Not one that closes the queue and opens it again. -/
def Op.OnOpen : Op → Prop
  | .reopen _ => False
  | _ => True

/-- No later calls see a difference: `q_queue_length` is the same, and so are the answers to any calls,
however the system calls come out. -/
structure SeenSame (path : String) (n es : Nat) (st st' : St) : Prop where
  length : qQueueLength st'.q = qQueueLength st.q
  answers : ∀ c ops, (∀ op ∈ ops, op.OnOpen) →
    run path n es ops (st'.resume c) = run path n es ops (st.resume c)

/-- Whenever the call returns `-1`, the queue is as it was. -/
def UnchangedOnFailure (path : String) (n es : Nat) (op : Change) (st : St) : Prop :=
  ∀ e st', op.perform st = .error (.errno e) st' → SeenSame path n es st st'

/-- The numbers of a queue are in order. -/
structure Queue.Formed (q : Queue) : Prop where
  head_lt : q.queueHead < q.numEntries
  length_le : q.queueLength ≤ q.numEntries
  header_le : sizeofFileHeader ≤ q.entrySize

/-- A queue, and a file with room for its entries. -/
structure St.Formed (st : St) : Prop where
  queue : st.q.Formed
  file : ∀ fd, st.q.fd = some fd → (st.q.numEntries + 1) * st.q.entrySize ≤ (st.sys.inodes fd).size

theorem InvAt.formed {path : String} {n es head len : Nat} {st : St} {held : List CString}
    (hsz : Sizes n es) (h : InvAt path n es head len st held) : st.Formed where
  queue :=
    { head_lt := by rw [h.numEntries]; exact h.head_lt
      length_le := by rw [h.length, h.numEntries]; exact h.length_le
      header_le := by rw [h.entrySize]; exact hsz.header_le }
  file fd hfd := by rw [(h.disk fd hfd).size, h.numEntries, h.entrySize]

/-! ## Queues that look the same -/

/-- What `q_peek` makes of the bytes of an entry. -/
def reading (buffer : Bytes) : Option Bytes :=
  if 0 ∉ buffer then none else some (cstr buffer).withNul

theorem reading_withNul (data : CString) (stale : Bytes) :
    reading (data.withNul ++ stale) = some data.withNul := by
  rw [reading, if_neg (by simp [CString.withNul]), cstr_withNul_append]

/-- The bytes of the `k`-th entry. -/
def Queue.entry (q : Queue) (f : File) (k : Nat) : Bytes :=
  f.slice (entryOffset q ((q.queueHead + k) % q.numEntries)) q.entrySize

/-- Two files that hold the same entries. -/
structure SameEntries (q : Queue) (f f' : File) : Prop where
  size : f'.size = f.size
  fits : (q.numEntries + 1) * q.entrySize ≤ f.size
  entries : ∀ k < q.queueLength, reading (q.entry f' k) = reading (q.entry f k)

/-- Two systems whose files hold the same entries. -/
structure Twin (q : Queue) (s s' : Sys) : Prop where
  calls : s'.calls = s.calls
  tick : s'.tick = s.tick
  files : ∀ fd, q.fd = some fd → SameEntries q (s.inodes fd) (s'.inodes fd)

/-- The queue `q` on two systems whose files hold the same entries. -/
structure LooksSame (q : Queue) (st st' : St) : Prop where
  left : st.q = q
  right : st'.q = q
  formed : q.Formed
  twin : Twin q st.sys st'.sys

variable {q : Queue} {fd : Nat} {f f' : File} {s s' : Sys} {st st' : St}

theorem SameEntries.refl (hfits : (q.numEntries + 1) * q.entrySize ≤ f.size) : SameEntries q f f :=
  ⟨rfl, hfits, fun _ _ => rfl⟩

theorem SameEntries.symm (h : SameEntries q f f') : SameEntries q f' f :=
  ⟨h.size.symm, h.size ▸ h.fits, fun k hk => (h.entries k hk).symm⟩

theorem SameEntries.trans {f'' : File} (h : SameEntries q f f') (h' : SameEntries q f' f'') :
    SameEntries q f f'' :=
  ⟨h'.size.trans h.size, h.fits, fun k hk => (h'.entries k hk).trans (h.entries k hk)⟩

/-- What lies between `lo` and `hi` can be overwritten. -/
def Clear (q : Queue) (lo hi : Nat) : Prop := ∀ (f : File) (buf : Bytes) (off : Nat),
  (q.numEntries + 1) * q.entrySize ≤ f.size → lo ≤ off → off + buf.length ≤ hi →
  SameEntries q f (f.write buf off)

theorem Clear.write {lo hi : Nat} (h : Clear q lo hi) {buf : Bytes} {off : Nat} (hlo : lo ≤ off)
    (hhi : off + buf.length ≤ hi) (hf : SameEntries q f f') :
    SameEntries q (f.write buf off) (f'.write buf off) :=
  ((h f buf off hf.fits hlo hhi).symm.trans hf).trans (h f' buf off hf.symm.fits hlo hhi)

/-- A part of the file that no entry of the queue is in can be overwritten. -/
theorem clear_of_disjoint {lo hi : Nat} (hhi : hi ≤ (q.numEntries + 1) * q.entrySize)
    (hdisjoint : ∀ k < q.queueLength,
      entryOffset q ((q.queueHead + k) % q.numEntries) + q.entrySize ≤ lo ∨
        hi ≤ entryOffset q ((q.queueHead + k) % q.numEntries)) : Clear q lo hi := by
  intro f buf off hfits hlo hle
  refine ⟨size_write_of_le _ (by omega), hfits, fun k hk => ?_⟩
  have hentry : q.entry (f.write buf off) k = q.entry f k := by
    refine slice_write_of_disjoint _ ?_
    rcases hdisjoint k hk with h | h
    · exact .inl (by omega)
    · exact .inr (by omega)
  rw [hentry]

theorem clear_state (h : q.Formed) : Clear q offsetofFhState (offsetofFhState + 8) := by
  have hle := h.header_le
  have hslot : ∀ i, q.entrySize ≤ entryOffset q i := le_slot q.entrySize
  have hend := le_slot q.entrySize q.numEntries
  simp only [sizeofFileHeader, offsetofFhState] at hle ⊢
  refine clear_of_disjoint (by omega) fun k _ => .inr ?_
  have := hslot ((q.queueHead + k) % q.numEntries)
  omega

variable {i : Nat}

theorem clear_free (h : q.Formed) (hlt : q.queueLength ≠ q.numEntries)
    (hi : i = (q.queueHead + q.queueLength) % q.numEntries) :
    Clear q (entryOffset q i) (entryOffset q i + q.entrySize) := by
  have hle := h.length_le
  have hin : i < q.numEntries := hi ▸ Nat.mod_lt _ (by omega)
  refine clear_of_disjoint (slot_add_le hin le_rfl) fun k hk => ?_
  refine slot_disjoint ?_ le_rfl le_rfl
  rw [hi]
  exact slot_ne _ (by omega) (by omega) (by omega)

/-! ## System calls -/

theorem Twin.call : Alike (Twin q) Spool.call Spool.call := by
  intro s s' h
  have hnext : ∀ t, Twin q { s with tick := t } { s' with calls := s.calls, tick := t } :=
    fun t => ⟨rfl, rfl, h.files⟩
  unfold Spool.call
  rw [h.calls, h.tick]
  grind

theorem Twin.discardCall : Alike (Twin q) (discard Spool.call : SysM Unit) (discard Spool.call) := by
  have hbind : (discard Spool.call : SysM Unit) = Spool.call >>= fun _ => pure () := rfl
  rw [hbind]
  exact Twin.call.bind fun _ => .pure ()

theorem Twin.callIgnored : Alike (Twin q) Spool.callIgnored Spool.callIgnored := by
  intro s s' h
  unfold Spool.callIgnored
  rcases (Twin.call (q := q)).both.cases h with ⟨a, a', t, t', hm, hm', -, ht⟩ | ⟨e, t, t', hm, hm', ht⟩
  · rw [hm, hm']
    exact ⟨rfl, ht⟩
  · grind

theorem Twin.setFile (h : Twin q s s') (hfd : q.fd = some fd) (hf : SameEntries q f f') :
    Twin q (s.setFile fd f) (s'.setFile fd f') := by
  refine ⟨h.calls, h.tick, fun fd' hfd' => ?_⟩
  simp_all

theorem Twin.fullPwriteLoop (hfd : q.fd = some fd) {lo hi : Nat} (hclear : Clear q lo hi) :
    ∀ (fuel : Nat) (buf : Bytes) (off : Nat), lo ≤ off → off + buf.length ≤ hi →
      Alike (Twin q) (Spool.fullPwriteLoop fd fuel buf off) (Spool.fullPwriteLoop fd fuel buf off)
  | 0, _, _, _, _ => Alike.pure ()
  | fuel + 1, buf, off, hlo, hhi => by
    rw [Spool.fullPwriteLoop]
    refine .ite (.pure ()) ?_
    have hwrite : Both (Twin q) (pwrite fd (buf.take ssizeMax) off) (pwrite fd (buf.take ssizeMax) off)
        (fun k k' s s' => (k = k' ∧ k ≤ buf.length) ∧ Twin q s s') (Twin q) := by
      refine Twin.call.both.bind fun n n' => ?_
      rintro s s' ⟨rfl, h⟩
      refine ⟨⟨rfl, (Nat.min_le_right _ _).trans (by simp)⟩, h.setFile hfd ?_⟩
      refine hclear.write hlo ?_ (h.files fd hfd)
      rw [length_take, length_take]
      omega
    refine (hwrite.bind fun k k' => ?_).alike
    rintro s s' ⟨⟨rfl, hk⟩, h⟩
    refine (Alike.ite (Alike.throw _) ?_).both s s' h
    exact Twin.fullPwriteLoop hfd hclear fuel _ _ (by omega) (by rw [length_drop]; omega)

theorem Twin.fullPwrite (hfd : q.fd = some fd) {buf : Bytes} {off hi : Nat} (hclear : Clear q off hi)
    (hhi : off + buf.length ≤ hi) :
    Alike (Twin q) (Spool.fullPwrite fd buf off) (Spool.fullPwrite fd buf off) :=
  Twin.fullPwriteLoop hfd hclear buf.length buf off le_rfl hhi

/-- Two systems as they were, some calls later. -/
def Ticked (s₀ s₀' s s' : Sys) : Prop :=
  ∃ t, s = { s₀ with tick := t } ∧ s' = { s₀' with tick := t }

theorem Twin.ticked (h : Twin q s s') {t t' : Sys} (ht : Ticked s s' t t') : Twin q t t' := by
  obtain ⟨u, rfl, rfl⟩ := ht
  exact ⟨h.calls, rfl, h.files⟩

theorem Ticked.call (hcalls : s'.calls = s.calls) : Alike (Ticked s s') Spool.call Spool.call := by
  rintro t t' ⟨u, rfl, rfl⟩
  unfold Spool.call
  rw [hcalls]
  cases s.calls u with
  | done n => exact ⟨rfl, u + 1, rfl, by rw [hcalls]⟩
  | fail e => exact ⟨rfl, u + 1, rfl, by rw [hcalls]⟩
  | killed => exact ⟨rfl, u, rfl, by rw [hcalls]⟩

theorem Ticked.fullPreadLoop (fd : Nat) (hcalls : s'.calls = s.calls)
    (hsize : (s'.inodes fd).size = (s.inodes fd).size) :
    ∀ (fuel size off : Nat) (buf buf' : Bytes), size ≤ fuel →
      Both (Ticked s s') (Spool.fullPreadLoop fd fuel size off buf)
        (Spool.fullPreadLoop fd fuel size off buf')
        (fun b b' t t' => (b = buf ++ (s.inodes fd).slice off size ∧
          b' = buf' ++ (s'.inodes fd).slice off size) ∧ Ticked s s' t t') (Ticked s s')
  | 0, size, off, buf, buf', hle => by
    obtain rfl : size = 0 := by omega
    exact .pure fun t t' ht => ⟨⟨by simp [slice], by simp [slice]⟩, ht⟩
  | fuel + 1, size, off, buf, buf', hle => by
    rw [Spool.fullPreadLoop, Spool.fullPreadLoop]
    refine .ite (fun h0 => .pure fun t t' ht => ?_) fun h0 => ?_
    · subst h0
      exact ⟨⟨by simp [slice], by simp [slice]⟩, ht⟩
    have hread : Both (Ticked s s') (pread fd (min size ssizeMax) off)
        (pread fd (min size ssizeMax) off)
        (fun b b' t t' => (∃ k ≤ size, b = (s.inodes fd).slice off k ∧
          b' = (s'.inodes fd).slice off k) ∧ Ticked s s' t t') (Ticked s s') := by
      refine (Ticked.call hcalls).both.bind fun n n' => ?_
      rintro t t' ⟨rfl, u, rfl, rfl⟩
      refine ⟨⟨_, ?_, rfl, ?_⟩, u, rfl, rfl⟩
      · exact ((Nat.min_le_right _ _).trans (Nat.min_le_left _ _)).trans (Nat.min_le_left _ _)
      · rw [hsize]
    refine hread.bind fun b b' => ?_
    rintro t t' ⟨⟨k, hk, rfl, rfl⟩, ht⟩
    rw [length_slice, length_slice]
    refine Both.ite (P := Ticked s s') (fun _ => Both.throw _ fun _ _ h => h) (fun hpos => ?_) t t' ht
    refine (Ticked.fullPreadLoop fd hcalls hsize fuel (size - k) (off + k) _ _ (by omega)).conseq
      (fun _ _ => id) ?_ fun _ _ => id
    rintro b b' t t' ⟨⟨rfl, rfl⟩, ht⟩
    refine ⟨⟨?_, ?_⟩, ht⟩
    · rw [append_assoc, ← slice_append, Nat.add_sub_cancel' hk]
    · rw [append_assoc, ← slice_append, Nat.add_sub_cancel' hk]

/-! ## Functions on the queue -/

/-- The same queue on two systems whose files hold the same entries. -/
def Same (st st' : St) : Prop := LooksSame st.q st st'

theorem LooksSame.same (h : LooksSame q st st') : Same st st' := by
  have hq := h.left
  subst hq
  exact h

theorem liftSys_both {α : Type} {m : SysM α} {Q : α → α → Sys → Sys → Prop}
    (h : Both (Twin q) m m (fun a a' s s' => Q a a' s s' ∧ Twin q s s') (Twin q)) :
    Both (LooksSame q) (liftSys m) (liftSys m)
      (fun a a' st st' => Q a a' st.sys st'.sys ∧ LooksSame q st st') (LooksSame q) := by
  intro st st' hst
  unfold liftSys
  rcases h.cases hst.twin with ⟨a, a', t, t', hm, hm', hQ, ht⟩ | ⟨e, t, t', hm, hm', ht⟩
  · rw [hm, hm']
    exact ⟨hQ, hst.left, hst.right, hst.formed, ht⟩
  · rw [hm, hm']
    exact ⟨rfl, hst.left, hst.right, hst.formed, ht⟩

theorem liftSys_alike {α : Type} {m : SysM α} (h : Alike (Twin q) m m) :
    Alike (LooksSame q) (liftSys m) (liftSys m) :=
  (liftSys_both (Q := fun a a' _ _ => a = a') h.both).alike

theorem LooksSame.qSync : Alike (LooksSame q) Spool.qSync Spool.qSync := by
  refine .read fun st st' h => ?_
  rw [h.left, h.right]
  exact .ite (liftSys_alike Twin.discardCall) (.pure ())

theorem LooksSame.syncFhState (hq : q.Formed) :
    Alike (LooksSame q) Spool.syncFhState Spool.syncFhState := by
  refine .read fun st st' h => ?_
  rw [h.left, h.right]
  cases hfd : q.fd with
  | none => exact .pure ()
  | some fd =>
    refine (liftSys_alike (Twin.fullPwrite hfd (clear_state hq) ?_)).bind fun _ => LooksSame.qSync
    rw [length_fhState]

theorem LooksSame.copyForMemory (i : Nat) :
    Alike (LooksSame q) (Spool.copyForMemory i) (Spool.copyForMemory i) := by
  refine .read fun st st' h => ?_
  rw [h.left, h.right]
  cases q.memory with
  | none => exact .pure ()
  | some mem =>
    exact .ite (.throw _) (.ite (.throw _) (liftSys_alike Twin.discardCall))

/-- The file has `data` in entry `i`. -/
def Written (q : Queue) (i : Nat) (data : CString) (s : Sys) : Prop :=
  ∀ fd, q.fd = some fd →
    reading ((s.inodes fd).slice (entryOffset q i) q.entrySize) = some data.withNul

theorem written_of_ok (hst : st.q = q) {data : CString} (hfit : data.strlen + 1 ≤ q.entrySize)
    (h : Spool.writeEntry i data st = .ok () st') : Written q i data st'.sys := by
  intro fd hfd
  obtain ⟨hl, -⟩ := (writeEntry_spec (g := False) False.elim i data).of_ok (St.Later.refl st) h
  rw [writtenPart, hst, hfd] at hl
  have hself := slice_write_self (st.sys.inodes fd) data.withNul (entryOffset q i)
  rw [CString.length_withNul] at hself
  have hslot : (st'.sys.inodes fd).slice (entryOffset q i) (data.strlen + 1) = data.withNul := by
    rw [hl.inodes, Sys.setFile_inodes_self]
    exact hself
  obtain ⟨rest, hrest⟩ := Nat.exists_eq_add_of_le hfit
  rw [hrest, slice_append, hslot, reading_withNul]

theorem LooksSame.writeEntry (hq : q.Formed) (hlt : q.queueLength ≠ q.numEntries)
    (hi : i = (q.queueHead + q.queueLength) % q.numEntries) {data : CString}
    (hfit : data.strlen + 1 ≤ q.entrySize) :
    Both (LooksSame q) (Spool.writeEntry i data) (Spool.writeEntry i data)
      (fun _ _ st st' => LooksSame q st st' ∧ Written q i data st.sys ∧ Written q i data st'.sys)
      (LooksSame q) := by
  have halike : Alike (LooksSame q) (Spool.writeEntry i data) (Spool.writeEntry i data) := by
    refine .read fun st st' h => ?_
    rw [h.left, h.right]
    cases hfd : q.fd with
    | none => exact .pure ()
    | some fd =>
      refine liftSys_alike (Twin.fullPwrite hfd (clear_free hq hlt hi) ?_)
      rw [CString.length_withNul]
      omega
  exact (halike.both.ends (fun _ _ _ _ h hok => written_of_ok h.left hfit hok)
    fun _ _ _ _ h hok => written_of_ok h.right hfit hok).conseq (fun _ _ => id)
    (fun _ _ _ _ h => ⟨h.1.2, h.2⟩) fun _ _ => id

/-- The queue with one entry more. -/
theorem LooksSame.appended (hi : i = (q.queueHead + q.queueLength) % q.numEntries)
    (hlt : q.queueLength ≠ q.numEntries) {data : CString} (memory : Option Memory)
    (h : LooksSame q st st') (hw : Written q i data st.sys) (hw' : Written q i data st'.sys) :
    LooksSame { q with memory := memory, queueLength := q.queueLength + 1 }
      { st with q := { q with memory := memory, queueLength := q.queueLength + 1 } }
      { st' with q := { q with memory := memory, queueLength := q.queueLength + 1 } } := by
  have hle := h.formed.length_le
  refine ⟨rfl, rfl, ⟨h.formed.head_lt, by dsimp only; omega, h.formed.header_le⟩, h.twin.calls,
    h.twin.tick, fun fd hfd => ?_⟩
  have hf := h.twin.files fd hfd
  refine ⟨hf.size, hf.fits, fun k hk => ?_⟩
  rcases Nat.lt_succ_iff_lt_or_eq.mp hk with hk | rfl
  · exact hf.entries k hk
  · have hslot := hw fd hfd
    have hslot' := hw' fd hfd
    rw [hi] at hslot hslot'
    exact hslot'.trans hslot.symm

theorem LooksSame.qAppendNoSyncFhState (data : CString) :
    Both (LooksSame q) (Spool.qAppendNoSyncFhState data) (Spool.qAppendNoSyncFhState data)
      (fun _ _ => Same) Same := by
  refine .read fun st st' h => ?_
  rw [h.left, h.right]
  have hpre : ∀ t t', t = st ∧ t' = st' → LooksSame q t t' := by
    rintro t t' ⟨rfl, rfl⟩
    exact h
  refine .ite (fun _ => .throw _ fun t t' ht => (hpre t t' ht).same) fun hlt =>
    .ite (fun _ => .throw _ fun t t' ht => (hpre t t' ht).same) fun hlong => ?_
  refine .bind ((LooksSame.copyForMemory _).both.conseq hpre (fun _ _ _ _ => id)
    fun _ _ => LooksSame.same) fun _ _ => .bind ((LooksSame.writeEntry h.formed hlt rfl
    (not_lt.mp hlong)).conseq (fun _ _ hs => hs.2) (fun _ _ _ _ => id) fun _ _ => LooksSame.same)
    fun _ _ => .modify ?_
  rintro t t' ⟨ht, hw, hw'⟩
  rw [ht.left, ht.right]
  exact (ht.appended rfl hlt _ hw hw').same

theorem LooksSame.qDropHeadMemoryOnly :
    Both (LooksSame q) Spool.qDropHeadMemoryOnly Spool.qDropHeadMemoryOnly (fun _ _ => Same) Same := by
  refine .read fun st st' h => ?_
  rw [h.left, h.right]
  have hsame : ∀ t t', t = st ∧ t' = st' → Same t t' := by
    rintro t t' ⟨rfl, rfl⟩
    exact h.same
  refine .ite (fun _ => .throw _ hsame) fun hpos => .ite (fun _ => .throw _ hsame) fun _ => .modify ?_
  rintro t t' ⟨rfl, rfl⟩
  have hhead := h.formed.head_lt
  have hle := h.formed.length_le
  refine LooksSame.same (q := { q with
    memory := q.memory.map fun mem => mem.put q.queueHead none
    queueHead := next q.numEntries q.queueHead
    queueLength := q.queueLength - 1 }) ⟨rfl, rfl, ⟨next_lt hhead, ?_, h.formed.header_le⟩,
    h.twin.calls, h.twin.tick, fun fd hfd => ?_⟩
  · dsimp only
    omega
  · have hf := h.twin.files fd hfd
    refine ⟨hf.size, hf.fits, fun k hk => ?_⟩
    have hentry := hf.entries (k + 1) (by dsimp only at hk; omega)
    unfold Queue.entry at hentry ⊢
    rw [← next_add_mod hhead k] at hentry
    exact hentry

/-! ## `q_peek` -/

/-- The oldest entry is read alike. -/
theorem LooksSame.read (hfd : q.fd = some fd) (hq : q.Formed) (hpos : q.queueLength ≠ 0) :
    Both (LooksSame q) (liftSys (fullPread fd q.entrySize (entryOffset q q.queueHead)))
      (liftSys (fullPread fd q.entrySize (entryOffset q q.queueHead)))
      (fun b b' st st' => reading b' = reading b ∧ LooksSame q st st') (LooksSame q) := by
  refine liftSys_both (Q := fun b b' _ _ => reading b' = reading b) fun s s' h => ?_
  have hf := h.files fd hfd
  have hentry := hf.entries 0 (Nat.pos_of_ne_zero hpos)
  rw [Queue.entry, Queue.entry, Nat.add_zero, Nat.mod_eq_of_lt hq.head_lt] at hentry
  refine (Ticked.fullPreadLoop fd h.calls hf.size q.entrySize q.entrySize _ [] [] le_rfl).conseq
    (fun _ _ => id) ?_ (fun t t' ht => h.ticked ht) s s' ⟨s.tick, rfl, by rw [← h.tick]⟩
  rintro b b' t t' ⟨⟨rfl, rfl⟩, ht⟩
  exact ⟨hentry, h.ticked ht⟩

theorem LooksSame.remembered (h : LooksSame q st st') (memory : Option Memory) :
    LooksSame { q with memory := memory } { st with q := { q with memory := memory } }
      { st' with q := { q with memory := memory } } := by
  refine ⟨rfl, rfl, ⟨h.formed.head_lt, h.formed.length_le, h.formed.header_le⟩, h.twin.calls,
    h.twin.tick, fun fd hfd => ?_⟩
  have hf := h.twin.files fd hfd
  exact { hf with }

theorem LooksSame.rememberHead (data : Bytes) :
    Both (LooksSame q) (Spool.rememberHead data) (Spool.rememberHead data) (fun _ _ => Same) Same := by
  refine .read fun st st' h => ?_
  rw [h.left, h.right]
  have hpre : ∀ t t', t = st ∧ t' = st' → LooksSame q t t' := by
    rintro t t' ⟨rfl, rfl⟩
    exact h
  cases q.memory with
  | none => exact .pure fun t t' ht => (hpre t t' ht).same
  | some mem =>
    refine .bind ((liftSys_alike Twin.callIgnored).both.conseq hpre (fun _ _ _ _ => id)
      fun _ _ => LooksSame.same) fun copied copied' => ?_
    rintro t t' ⟨rfl, ht⟩
    refine Both.ite (P := LooksSame q) (fun _ => Both.modify ?_)
      (fun _ => Both.pure fun _ _ => LooksSame.same) t t' ht
    intro t t' ht
    rw [ht.left, ht.right]
    exact (ht.remembered _).same

theorem LooksSame.qPeekFile (hfd : q.fd = some fd) (hq : q.Formed) (hpos : q.queueLength ≠ 0) :
    Both (LooksSame q) (Spool.qPeekFile fd) (Spool.qPeekFile fd)
      (fun b b' st st' => b = b' ∧ Same st st') Same := by
  refine .read fun st st' h => ?_
  rw [h.left, h.right]
  refine .bind ((LooksSame.read hfd hq hpos).conseq ?_ (fun _ _ _ _ => id)
    fun _ _ => LooksSame.same) fun b b' => ?_
  · rintro t t' ⟨rfl, rfl⟩
    exact h
  rintro t t' ⟨hreading, ht⟩
  by_cases hnul : 0 ∉ b
  · have hnul' : 0 ∉ b' := by
      intro hmem
      simp only [reading, if_pos hnul, if_neg (not_not.mpr hmem)] at hreading
      cases hreading
    rw [if_pos hnul, if_pos hnul']
    exact ⟨rfl, ht.same⟩
  · have hnul' : ¬ 0 ∉ b' := by
      intro hmem
      simp only [reading, if_neg hnul, if_pos hmem] at hreading
      cases hreading
    rw [if_neg hnul, if_neg hnul']
    simp only [reading, if_neg hnul, if_neg hnul'] at hreading
    rw [Option.some.inj hreading]
    exact Both.bind (LooksSame.rememberHead _) (fun _ _ => Both.pure fun _ _ hs => ⟨rfl, hs⟩) t t' ht

theorem Same.qPeek (size : Nat) : Alike Same (Spool.qPeek size) (Spool.qPeek size) := by
  refine Both.alike (Both.read fun st st' h => ?_)
  have hright : st'.q = st.q := h.right
  have hpre : ∀ t t', t = st ∧ t' = st' → LooksSame st.q t t' := by
    rintro t t' ⟨rfl, rfl⟩
    exact h
  have hcopy : ∀ data, Both Same (qPeekCopy data size) (qPeekCopy data size)
      (fun p p' st st' => p = p' ∧ Same st st') Same := fun data =>
    .ite (fun _ => .throw _ fun _ _ => id) fun _ => .pure fun _ _ hs => ⟨rfl, hs⟩
  rw [hright]
  refine .ite (fun _ => .pure fun t t' ht => ⟨rfl, (hpre t t' ht).same⟩) fun hpos =>
    .ite (fun _ => .throw _ fun t t' ht => (hpre t t' ht).same) fun _ => ?_
  cases st.q.memory.bind (·.entry st.q.queueHead) with
  | some copy => exact (hcopy _).pre fun t t' ht => (hpre t t' ht).same
  | none =>
    cases hfd : st.q.fd with
    | none => exact .throw _ fun t t' ht => (hpre t t' ht).same
    | some fd =>
      refine .bind ((LooksSame.qPeekFile hfd h.formed hpos).pre hpre) fun b b' => ?_
      rintro t t' ⟨rfl, ht⟩
      exact hcopy b t t' ht

/-! ## Later calls -/

theorem Same.of_looksSame {α : Type} {m : QM α} (h : ∀ q : Queue, q.Formed →
    Both (LooksSame q) m m (fun a a' st st' => a = a' ∧ Same st st') Same) : Alike Same m m :=
  fun st st' hst => h st.q hst.formed st st' hst

theorem Same.syncFhState : Alike Same Spool.syncFhState Spool.syncFhState :=
  Same.of_looksSame fun _ hq => (LooksSame.syncFhState hq).both.conseq (fun _ _ => id)
    (fun _ _ _ _ hs => ⟨hs.1, hs.2.same⟩) fun _ _ => LooksSame.same

theorem Same.qAppend (data : CString) : Alike Same (Spool.qAppend data) (Spool.qAppend data) :=
  .bind (Same.of_looksSame fun _ _ => (LooksSame.qAppendNoSyncFhState data).conseq (fun _ _ => id)
    (fun _ _ _ _ hs => ⟨rfl, hs⟩) fun _ _ => id) fun _ => Same.syncFhState

theorem Same.qDropHead : Alike Same Spool.qDropHead Spool.qDropHead :=
  .bind (Same.of_looksSame fun _ _ => LooksSame.qDropHeadMemoryOnly.conseq (fun _ _ => id)
    (fun _ _ _ _ hs => ⟨rfl, hs⟩) fun _ _ => id) fun _ => Same.syncFhState

/-- **One call** has the same answer on queues that look the same. -/
theorem step_same (path : String) (n es : Nat) {op : Op} (hop : op.OnOpen) (h : Same st st') :
    (step path n es op st).1 = (step path n es op st').1 ∧
      Same (step path n es op st).2 (step path n es op st').2 := by
  cases op with
  | append data =>
    simp only [step]
    rcases (Same.qAppend data).both.cases h with ⟨a, a', t, t', hm, hm', -, ht⟩ | ⟨e, t, t', hm, hm', ht⟩
    all_goals
      rw [hm, hm']
      exact ⟨rfl, ht⟩
  | peek size =>
    simp only [step]
    rcases (Same.qPeek size).both.cases h with ⟨a, a', t, t', hm, hm', rfl, ht⟩ | ⟨e, t, t', hm, hm', ht⟩
    all_goals
      rw [hm, hm']
      exact ⟨rfl, ht⟩
  | dropHead =>
    simp only [step]
    rcases Same.qDropHead.both.cases h with ⟨a, a', t, t', hm, hm', -, ht⟩ | ⟨e, t, t', hm, hm', ht⟩
    all_goals
      rw [hm, hm']
      exact ⟨rfl, ht⟩
  | reopen qFlags => exact hop.elim

/-- **Later calls** have the same answers. -/
theorem run_same (path : String) (n es : Nat) : ∀ (ops : List Op) (st st' : St),
    (∀ op ∈ ops, op.OnOpen) → Same st st' → run path n es ops st' = run path n es ops st
  | [], _, _, _, _ => rfl
  | op :: ops, st, st', hops, h => by
    obtain ⟨hreply, hsame⟩ := step_same path n es (hops op mem_cons_self) h
    have hq : (step path n es op st').2.q = (step path n es op st).2.q := hsame.right
    have hrest := run_same path n es ops _ _ (fun op' hmem => hops op' (mem_cons_of_mem _ hmem)) hsame
    rw [run_cons, run_cons, hreply, hq, hrest]

/-! ## The two phases -/

/-- The queue is the same, and its file holds the same entries. -/
structure Untouched (st st' : St) : Prop where
  queue : st'.q = st.q
  files : ∀ fd, st.q.fd = some fd → SameEntries st.q (st.sys.inodes fd) (st'.sys.inodes fd)

theorem St.Formed.untouched (h : st.Formed) : Untouched st st :=
  ⟨rfl, fun fd hfd => SameEntries.refl (h.file fd hfd)⟩

/-- A part of an entry that is not in use has been written. -/
theorem St.Formed.writtenPart (h : st.Formed) (hlt : st.q.queueLength ≠ st.q.numEntries)
    (hi : i = (st.q.queueHead + st.q.queueLength) % st.q.numEntries) {buf : Bytes}
    (hbuf : buf.length ≤ st.q.entrySize) (hl : (writtenPart st i buf).Later st'.sys)
    (hq : st'.q = st.q) : Untouched st st' := by
  refine ⟨hq, fun fd hfd => ?_⟩
  have hwritten : st'.sys.inodes fd = (st.sys.inodes fd).write buf (entryOffset st.q i) := by
    rw [hl.inodes, Spool.writtenPart, hfd]
    exact Sys.setFile_inodes_self _ _ _
  rw [hwritten]
  exact clear_free h.queue hlt hi _ _ _ (h.file fd hfd) le_rfl (by omega)

/-- **A first phase that fails** leaves the queue and its entries alone. -/
theorem firstPhase_fails (h : st.Formed) (op : Change) :
    Triple (· = st) op.firstPhase (fun _ _ => True) (fun _ st' => Untouched st st') := by
  cases op with
  | append data =>
    refine (qAppendNoSyncFhState_spec (g := False) False.elim data rfl).weaken (fun _ _ _ => trivial) ?_
    rintro e st' ⟨⟨⟨buf, hl, rfl | ⟨hlt, hbuf, hfit⟩⟩, hq⟩, -⟩
    · rw [writtenPart_nil] at hl
      refine ⟨hq, fun fd hfd => ?_⟩
      rw [hl.inodes]
      exact SameEntries.refl (h.file fd hfd)
    · exact h.writtenPart hlt rfl (hbuf.trans hfit) hl hq
  | dropHead =>
    refine qDropHeadMemoryOnly_spec.weaken (fun _ _ _ => trivial) ?_
    rintro e st' ⟨rfl, -⟩
    exact h.untouched

/-- **One that succeeds** changes the number of entries. -/
theorem firstPhase_succeeds (op : Change) :
    Triple (· = st) op.firstPhase (fun _ st' => st'.q.queueLength ≠ st.q.queueLength)
      (fun _ _ => True) := by
  cases op with
  | append data =>
    refine (qAppendNoSyncFhState_spec (g := False) False.elim data rfl).weaken ?_ fun _ _ _ => trivial
    rintro _ st' ⟨-, hq⟩
    rw [hq]
    exact Nat.succ_ne_self _
  | dropHead =>
    refine qDropHeadMemoryOnly_spec.weaken ?_ fun _ _ _ => trivial
    rintro _ st' ⟨rfl, h0⟩
    show st.q.queueLength - 1 ≠ st.q.queueLength
    omega

theorem Untouched.seenSame (path : String) (n es : Nat) (hst : st.Formed) (h : Untouched st st') :
    SeenSame path n es st st' where
  length := congrArg qQueueLength h.queue
  answers _ ops hops := run_same path n es ops _ _ hops
    ⟨rfl, h.queue, hst.queue, rfl, rfl, h.files⟩

theorem Change.perform_eq (op : Change) : op.perform = op.firstPhase >>= fun _ => syncFhState := by
  cases op <;> rfl

/-- **Calls that fail**: the queue is as it was before whenever `q_append` or `q_drop_head` returns `-1`,
unless it was `sync_fh_state` that failed. -/
theorem unchangedOnFailure_iff (path : String) (n es : Nat) (h : st.Formed) (op : Change) :
    UnchangedOnFailure path n es op st ↔
      ¬ ∃ st₁ e st', op.firstPhase st = .ok () st₁ ∧ syncFhState st₁ = .error (.errno e) st' := by
  constructor
  · rintro hunchanged ⟨st₁, e, st', hfirst, hsync⟩
    have hseen := hunchanged e st' (by rw [op.perform_eq, bind_ok hfirst, hsync])
    have hlength := (firstPhase_succeeds op).of_ok rfl hfirst
    have hq := syncFhState_frame st₁ rfl
    rw [hsync] at hq
    exact hlength ((congrArg Queue.queueLength hq).symm.trans hseen.length)
  · intro hnot e st' hfail
    rw [op.perform_eq] at hfail
    have hfirst := firstPhase_fails h op st rfl
    cases hrun : op.firstPhase st with
    | ok a st₁ =>
      rw [bind_ok hrun] at hfail
      exact absurd ⟨st₁, e, st', hrun, hfail⟩ hnot
    | error e₁ st₁ =>
      rw [bind_error hrun] at hfail
      rw [hrun] at hfirst
      cases hfail
      exact hfirst.seenSame path n es h

/-! ## A disk that is full -/

/-- An empty queue of four entries in a file, on a disk that fills up after `k` calls. -/
def fillingUp (k : Nat) : St :=
  ⟨⟨fun _ => newFile 4 32, fun _ => some 0, 1,
    fun t => if t < k then .done (2 ^ 63) else .fail .enospc, 0⟩, fileQueue 0 4 32 0 0⟩

theorem fillingUp_formed (k : Nat) : (fillingUp k).Formed := by
  have hsz : Sizes 4 32 := ⟨by decide, by decide, le_rfl, by decide⟩
  have hnew := newFile_onDisk hsz
  have hinv : Inv "spool" 4 32 (fillingUp k) [] :=
    FileHolds.inv ⟨rfl, hnew.1, hnew.2, by decide, by decide⟩
  exact InvAt.formed hsz hinv

/-- If the entry cannot be written the queue is as it was. -/
theorem unchangedOnFailure_entry :
    (∃ st', qAppend ⟨[97], by decide⟩ (fillingUp 0) = .error (.errno .enospc) st') ∧
      UnchangedOnFailure "spool" 4 32 (.append ⟨[97], by decide⟩) (fillingUp 0) := by
  refine ⟨⟨_, rfl⟩, (unchangedOnFailure_iff "spool" 4 32 (fillingUp_formed 0) _).mpr ?_⟩
  rintro ⟨st₁, e, st', hfirst, -⟩
  cases hfirst

/-- **If the state cannot be written it is not**: `q_append` returns `-1`, and the string is in the
queue. -/
theorem not_unchangedOnFailure_state : (fillingUp 1).Formed ∧
    (∃ st', qAppend ⟨[97], by decide⟩ (fillingUp 1) = .error (.errno .enospc) st' ∧
      qQueueLength (fillingUp 1).q = 0 ∧ qQueueLength st'.q = 1) ∧
    ¬ UnchangedOnFailure "spool" 4 32 (.append ⟨[97], by decide⟩) (fillingUp 1) := by
  refine ⟨fillingUp_formed 1, ⟨_, rfl, rfl, rfl⟩, fun h => ?_⟩
  exact absurd (h .enospc _ rfl).length (by decide)

end LibAudit.Spool
