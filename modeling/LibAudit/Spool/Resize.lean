import LibAudit.Spool.Crash

/-!
# Resizing a queue, and when a crash is safe

A `q_open` that resizes the queue at `path` does not write to its file: it copies the entries to a new
file and renames that.  So up to the rename the old file is untouched (`Keeps`), and afterwards the new
one holds the same strings; `qOpen_spec` says so for every schedule.

What can go wrong is the copying loop.  `q_open_no_resize` allocates the array `memory` for the number
of entries it is given, and `q_open_file` then sets `num_entries` to that of the file.  If this is
larger, `q_peek` looks up an entry of the file in an array that is too short for it.  `moveEnd` says how
the loop ends.
-/

namespace LibAudit.Spool

open Ring Hoare Option List

/-! ## How the copying loop ends -/

/-- The ways the loop ends: all entries are moved, one is looked up behind the array, or one is so long
that `q_peek` returns a negative number for it. -/
inductive MoveEnd
  | done | outside | tooLong
  deriving DecidableEq, Repr

/-- The end of the loop over the entries from `head` on in a file of `n` entries, if the array, where
there is one, has `m` entries. -/
def moveEnd (inMemory : Bool) (n m : Nat) : Nat → List CString → MoveEnd
  | _, [] => .done
  | head, data :: held =>
    if inMemory = true ∧ m ≤ head then .outside
    else if 2 ^ 31 ≤ data.strlen + 1 then .tooLong
    else moveEnd inMemory n m (next n head) held

/-- `q_open` gets to the copying loop, for a file of `n` entries that holds `len` strings. -/
structure Resizes (qFlags : Flags) (n m es len : Nat) : Prop where
  opens : Opens qFlags m es
  ne : n ≠ m
  resize : qFlags.resize = true
  le : len ≤ m

/-- A function has stopped with `e`, while the loop ends by `r` if all calls succeed. -/
def EndsBy (g : Prop) (r : MoveEnd) (e : Fault) : Prop :=
  (e = .outOfBounds → r = .outside) ∧ (g → r ≠ .done ∧ (r = .outside → e = .outOfBounds))

theorem Stopped.endsBy {g : Prop} {e : Fault} (h : Stopped g e) (r : MoveEnd) : EndsBy g r e :=
  ⟨fun he => absurd he h.1, fun hg => absurd hg h.2⟩

/-! ## The file that is resized -/

/-- The file at `path` is still `f`. -/
structure Keeps (c : Nat → Outcome) (path : String) (fd : Nat) (f : File) (s : Sys) : Prop where
  calls : s.calls = c
  name : s.names path = some fd
  file : s.inodes fd = f
  fresh : fd < s.nextIno

section New

variable {c : Nat → Outcome} {g : Prop} {path tmp : String} {n es fd head m : Nat} {f : File}
  {held moved : List CString} {s : Sys} {qFlags : Flags}

theorem Keeps.later {s' : Sys} (h : Keeps c path fd f s) (hl : s.Later s') : Keeps c path fd f s' :=
  ⟨hl.calls.trans h.calls, by rw [hl.names]; exact h.name, by rw [hl.inodes]; exact h.file,
    by rw [hl.nextIno]; exact h.fresh⟩

theorem Keeps.setFile (h : Keeps c path fd f s) {j : Nat} (hj : j ≠ fd) (f' : File) :
    Keeps c path fd f (s.setFile j f') :=
  ⟨h.calls, h.name, (if_neg hj.symm).trans h.file, h.fresh⟩

theorem Keeps.created (h : Keeps c path fd f s) (hne : tmp ≠ path) : Keeps c path fd f (s.created tmp) :=
  ⟨h.calls, (if_neg hne.symm).trans h.name, (if_neg h.fresh.ne).trans h.file,
    Nat.lt_succ_of_lt h.fresh⟩

theorem Keeps.succeeds (h : Keeps c path fd f s) (hg : g → Smooth c) (hgo : g) : s.Succeeds :=
  (hg hgo).succeeds h.calls

theorem Keeps.discardCall (hg : g → Smooth c) :
    Triple (Keeps c path fd f) (discard call : SysM Unit) (fun _ => Keeps c path fd f)
      (fun e s' => Keeps c path fd f s' ∧ Stopped g e) :=
  fun s hs => (discardCall_spec (hs.succeeds hg)).weaken (fun _ _ hl => hs.later hl)
    (fun _ _ he => ⟨hs.later he.1, he.2⟩) s (.refl s)

/-! ## The new file -/

/-- The queue on the new file, with the header that `q_open` wrote. -/
structure Filling (c : Nat → Outcome) (path : String) (fd : Nat) (f : File) (tmp : String)
    (m es : Nat) (moved : List CString) (q : Queue) (s : Sys) : Prop where
  keeps : Keeps c path fd f s
  head : q.queueHead = 0
  file : ∃ fd₂, q.fd = some fd₂ ∧ fd₂ ≠ fd
  inv : InvAt tmp m es 0 0 ⟨s, q⟩ moved

/-- `q_open_no_resize` for the new file. -/
theorem Keeps.qOpenNoResize (hg : g → Smooth c) (h : Keeps c path fd f s)
    (hargs : argsOk qFlags m es = true) (hfile : qFlags.inFile = true) (hne : tmp ≠ path)
    (hnew : s.names tmp = none) :
    Triple (· = s) (qOpenNoResize { qFlags with creat := true, excl := true } tmp m es)
      (fun q => Filling c path fd f tmp m es [] q)
      (fun e s' => Keeps c path fd f s' ∧ Stopped g e) := by
  have hkeeps : ∀ f', Keeps c path fd f ((s.created tmp).setFile s.nextIno f') :=
    (h.created hne).setFile h.fresh.ne'
  have hargs' : argsOk { qFlags with creat := true, excl := true } m es = true := hargs
  refine (qOpenNoResize_new (h.succeeds hg) hargs' hfile rfl hnew).weaken ?_ ?_
  · rintro q s' ⟨hl, rfl⟩
    have hholds : FileHolds tmp m es s.nextIno 0 []
        ((s.created tmp).setFile s.nextIno (newFile m es)) :=
      fileHolds_newFile (sizes_of_argsOk hargs) (if_pos rfl) (Sys.setFile_inodes_self _ _ _)
    exact ⟨(hkeeps _).later hl, rfl, ⟨_, rfl, h.fresh.ne'⟩, inv_oldQueue (hholds.later hl)⟩
  · rintro e s' ⟨hl | ⟨k, hl⟩, he⟩
    · exact ⟨h.later hl, he⟩
    · exact ⟨(hkeeps _).later hl, he⟩

/-! ## The copying loop -/

variable {q : Queue}

theorem onQueue_spec {α : Type} {x : QM α} {Q : α → St → Prop} {E : Fault → St → Prop}
    (h : Triple (· = (⟨s, q⟩ : St)) x Q E) :
    Triple (· = s) (onQueue q x) (fun r s' => Q r.1 ⟨s', r.2⟩) (fun e s' => ∃ q', E e ⟨s', q'⟩) := by
  rintro s rfl
  have := h _ rfl
  unfold onQueue
  cases hx : x ⟨s, q⟩ with
  | ok a st => rw [hx] at this; exact this
  | error e st => rw [hx] at this; exact ⟨st.q, this⟩

theorem oldQueue_beyond {len : Nat} : (oldQueue qFlags m es fd n head len).Beyond head ↔
    qFlags.inMemory = true ∧ m ≤ head := by
  unfold Queue.Beyond oldQueue initialQueue
  cases qFlags.inMemory <;> simp

/-- **Reading an entry of the old file**: it is what it is, unless the array is too short for it. -/
theorem qPeek_old {data : CString} (hg : g → Smooth c) (hk : Keeps c path fd f s)
    (hd : OnDisk n es head (data :: held) f) (hh : head < n)
    (hq : q = oldQueue qFlags m es fd n head (held.length + 1)) :
    Triple (· = (⟨s, q⟩ : St)) (qPeek es)
      (fun p st => (s.Later st.sys ∧ (st.q = q ∨ st.q = remembered q data)) ∧
        p = ⟨toInt (data.strlen + 1), data.withNul⟩ ∧ ¬ (qFlags.inMemory = true ∧ m ≤ head))
      (fun e st => s.Later st.sys ∧
        if qFlags.inMemory = true ∧ m ≤ head then e = .outOfBounds else Stopped g e) := by
  subst hq
  obtain ⟨stale, hslice⟩ := hd.slice_front hh
  have hfit : data.strlen + 1 ≤ es := (hd.stored.front hh).1
  refine .get_bind_eq ?_
  refine .ite (fun h0 => absurd h0 (Nat.succ_ne_zero held.length)) fun _ =>
    .ite (fun hb => .throw _ ?_) fun hb => ?_
  · rintro st rfl
    exact ⟨.refl _, by rw [if_pos (oldQueue_beyond.1 hb)]⟩
  have hin : ¬ (qFlags.inMemory = true ∧ m ≤ head) := fun h => hb (oldQueue_beyond.2 h)
  simp only [if_neg hin]
  have hnone : ((oldQueue qFlags m es fd n head (held.length + 1)).memory.bind fun mem =>
      mem.entry (oldQueue qFlags m es fd n head (held.length + 1)).queueHead) = none := by
    unfold oldQueue initialQueue
    cases qFlags.inMemory <;> rfl
  rw [hnone, show (oldQueue qFlags m es fd n head (held.length + 1)).fd = some fd from rfl]
  refine .bind (qPeekFile_spec (hk.succeeds hg) data stale ?_ ?_) fun b => .assume (fun _ hs => hs.2) ?_
  · rw [hk.file, hd.size]
    exact slot_add_le hh le_rfl
  · rw [hk.file]
    exact hslice
  · rintro rfl
    rw [qPeekCopy, CString.length_withNul, if_neg (by omega)]
    exact .pure _ fun st hs => ⟨hs.1, rfl, hin⟩

theorem oldQueue_dropped {data : CString} {len : Nat}
    (hq : q = oldQueue qFlags m es fd n head (len + 1) ∨
      q = remembered (oldQueue qFlags m es fd n head (len + 1)) data) :
    q.dropped = oldQueue qFlags m es fd n (next n head) len := by
  have hput : ∀ copy, ((⟨m, fun _ => none⟩ : Memory).put head copy).put head none =
      ⟨m, fun _ => none⟩ := by
    intro copy
    simp only [Memory.put, Memory.mk.injEq, true_and]
    funext j
    split <;> rfl
  have hput' : (⟨m, fun _ => none⟩ : Memory).put head none = ⟨m, fun _ => none⟩ := by
    simp [Memory.put]
  unfold Queue.dropped
  rcases hq with rfl | rfl
  · unfold oldQueue initialQueue
    cases qFlags.inMemory <;> simp [Ring.next, hput']
  · unfold remembered oldQueue initialQueue
    cases qFlags.inMemory <;> simp [Ring.next, hput]

theorem qDropHeadMemoryOnly_old {data : CString} {len : Nat}
    (hq : q = oldQueue qFlags m es fd n head (len + 1) ∨
      q = remembered (oldQueue qFlags m es fd n head (len + 1)) data)
    (hin : ¬ (qFlags.inMemory = true ∧ m ≤ head)) :
    Triple (· = (⟨s, q⟩ : St)) qDropHeadMemoryOnly
      (fun _ st => st = ⟨s, oldQueue qFlags m es fd n (next n head) len⟩) (fun _ _ => False) := by
  have hlen : q.queueLength ≠ 0 := by
    rcases hq with rfl | rfl <;> exact Nat.succ_ne_zero len
  have hb : ¬ q.Beyond q.queueHead := by
    rcases hq with rfl | rfl
    · exact fun h => hin (oldQueue_beyond.1 h)
    · rintro ⟨mem, hmem, hle⟩
      obtain ⟨mem₀, hmem₀, rfl⟩ := map_eq_some_iff.mp hmem
      exact hin (oldQueue_beyond.1 ⟨mem₀, hmem₀, hle⟩)
  refine qDropHeadMemoryOnly_spec.weaken ?_ ?_
  · rintro _ st ⟨rfl, -⟩
    exact congrArg (St.mk s) (oldQueue_dropped hq)
  · simp_all

theorem toInt_eq (k : Nat) (h : k < 2 ^ 32) :
    toInt k = if k < 2 ^ 31 then (k : Int) else (k : Int) - 2 ^ 32 := by
  unfold toInt
  rw [Int.bmod_def]
  push_cast
  split_ifs <;> omega

/-- An entry goes to the new file. -/
theorem Filling.append (data : CString) (hg : g → Smooth c) (hsz : Sizes m es)
    (h : Filling c path fd f tmp m es moved q s) (hlt : moved.length < m)
    (hfit : data.strlen + 1 ≤ es) :
    Triple (· = s) (onQueue q (qAppendNoSyncFhState data))
      (fun r s' => Filling c path fd f tmp m es (moved ++ [data]) r.2 s')
      (fun e s' => Keeps c path fd f s' ∧ Stopped g e) := by
  obtain ⟨fd₂, hfd₂, hne⟩ := h.file
  have hpart : ∀ i b, Keeps c path fd f (writtenPart ⟨s, q⟩ i b) := by
    intro i b
    rw [writtenPart, hfd₂]
    exact h.keeps.setFile hne _
  refine (onQueue_spec (qAppendNoSync_spec (h.keeps.succeeds hg) hsz h.inv hlt hfit rfl)).weaken ?_ ?_
  · rintro ⟨_, q'⟩ s' ⟨hinv, hq, hl⟩
    obtain rfl : q' = q.appended _ data := hq
    exact ⟨(hpart _ _).later hl, h.head, ⟨fd₂, hfd₂, hne⟩, hinv⟩
  · rintro e s' ⟨q', ⟨buf, -, hl⟩, he⟩
    exact ⟨(hpart _ _).later hl, he⟩

theorem Filling.later {s' : Sys} (h : Filling c path fd f tmp m es moved q s)
    (hl : s.Later s') : Filling c path fd f tmp m es moved q s' :=
  ⟨h.keeps.later hl, h.head, h.file, h.inv.later hl⟩

/-- **The copying loop** moves all entries, or stops with the old file untouched. -/
theorem qMoveAll_spec (hg : g → Smooth c) (hsz : Sizes m es) : ∀ (held moved : List CString)
    (head : Nat) (q₂ : Queue) (s : Sys), OnDisk n es head held f → head < n → held.length ≤ n →
    moved.length + held.length ≤ m → Filling c path fd f tmp m es moved q₂ s →
    Triple (· = s)
      (qMoveAll es (held.length + 1) (oldQueue qFlags m es fd n head held.length) q₂)
      (fun q s' => Filling c path fd f tmp m es (moved ++ held) q s' ∧
        moveEnd qFlags.inMemory n m head held = .done)
      (fun e s' => Keeps c path fd f s' ∧ EndsBy g (moveEnd qFlags.inMemory n m head held) e)
  | [], moved, head, q₂, s, _, _, _, _, h => by
    refine .bind (Q := fun r s' => s' = s ∧ r.1 = ⟨0, []⟩) ?_ fun r =>
      .assume (fun _ hs => hs.2) fun hr => ?_
    · rintro s rfl
      exact ⟨rfl, rfl⟩
    · obtain ⟨p, q⟩ := r
      obtain rfl : p = ⟨0, []⟩ := hr
      refine .pure _ ?_
      rintro s' ⟨rfl, -⟩
      rw [append_nil]
      exact ⟨h, rfl⟩
  | data :: held, moved, head, q₂, s, hd, hh, hlen, hm, h => by
    have hfit : data.strlen + 1 ≤ es := (hd.stored.front hh).1
    have hes := hsz.es_lt
    rw [length_cons] at hlen hm
    refine .bind ((onQueue_spec (qPeek_old hg h.keeps hd hh rfl)).err ?_) fun r =>
      .assume (fun _ hs => hs.2) fun hr => ?_
    · rintro e s' ⟨q', hl, he⟩
      refine ⟨h.keeps.later hl, ?_⟩
      split at he
      · rename_i hout
        rw [moveEnd, if_pos hout]
        exact ⟨fun _ => rfl, fun _ => ⟨(fun h => by cases h), fun _ => he⟩⟩
      · exact he.endsBy _
    obtain ⟨p, q⟩ := r
    obtain ⟨rfl, hin⟩ : p = ⟨toInt (data.strlen + 1), data.withNul⟩ ∧ _ := hr
    rw [moveEnd, if_neg hin]
    rcases Nat.lt_or_ge (data.strlen + 1) (2 ^ 31) with hshort | hlong
    · have hret : 0 < toInt (data.strlen + 1) := by
        rw [toInt_eq _ (by omega), if_pos hshort]
        omega
      generalize toInt (data.strlen + 1) = ret at hret ⊢
      rw [if_neg (by omega)]
      refine .ite (fun h0 => absurd h0 hret.ne') fun _ =>
        .ite (fun hneg => absurd hneg hret.le.not_gt) fun _ => ?_
      rintro s₁ ⟨⟨hl, hq⟩, -⟩
      have happend := (h.later hl).append data hg hsz (by omega) hfit
      rw [cstr_withNul]
      refine Triple.bind (happend.err
        fun _ _ he => ⟨he.1, he.2.endsBy _⟩) (fun r₂ => ?_) s₁ rfl
      rintro s₂ hfill
      refine Triple.bind ((onQueue_spec (qDropHeadMemoryOnly_old hq hin)).err
        fun _ _ ⟨_, he⟩ => he.elim) (fun r₃ => ?_) s₂ rfl
      rintro s₃ hst
      obtain ⟨_, q₃⟩ := r₃
      obtain ⟨rfl, rfl⟩ : s₃ = s₂ ∧ q₃ = oldQueue qFlags m es fd n (next n head) held.length := by
        simpa using hst
      have hrec := qMoveAll_spec hg hsz held (moved ++ [data]) (next n head) r₂.2 s₃
        ⟨hd.size, hd.header, hd.stored.pop hh (by omega) fun _ _ _ hb => hb⟩ (next_lt hh) (by omega)
        (by simp only [length_append, length_singleton]; omega) hfill
      rw [append_assoc, singleton_append] at hrec
      exact hrec s₃ rfl
    · have hret : toInt (data.strlen + 1) < 0 := by
        rw [toInt_eq _ (by omega), if_neg (by omega)]
        omega
      generalize toInt (data.strlen + 1) = ret at hret ⊢
      rw [if_pos hlong]
      refine .ite (fun h0 => absurd h0 hret.ne) fun _ =>
        .ite (fun _ => .throw _ ?_) fun hnot => absurd hret hnot
      rintro s₁ ⟨⟨hl, -⟩, -⟩
      exact ⟨h.keeps.later hl, (fun h => by cases h), fun _ => ⟨(fun h => by cases h),
        (fun h => by cases h)⟩⟩

/-! ## The rename -/

theorem Filling.sync (hg : g → Smooth c) (hsz : Sizes m es)
    (h : Filling c path fd f tmp m es moved q s) :
    Triple (· = s) (onQueue q syncFhState)
      (fun r s' => Keeps c path fd f s' ∧ Inv tmp m es ⟨s', r.2⟩ moved ∧ r.2 = q)
      (fun e s' => Keeps c path fd f s' ∧ Stopped g e) := by
  obtain ⟨fd₂, hfd₂, hne⟩ := h.file
  have hg' : g → (⟨s, q⟩ : St).sys.Succeeds := h.keeps.succeeds hg
  refine (onQueue_spec (St.Later.start (syncFhState_spec hg' hfd₂))).weaken ?_ ?_
  · rintro ⟨_, q'⟩ s' ⟨hl, hq⟩
    obtain rfl : q' = q := hq
    exact ⟨(h.keeps.setFile hne _).later hl, InvAt.later (h.inv.synced hsz hfd₂) hl, rfl⟩
  · rintro e s' ⟨q', ⟨⟨f', hl⟩, he⟩, -⟩
    exact ⟨(h.keeps.setFile hne _).later hl, he⟩

/-- The name `mkstemp` comes up with is not that of the queue. -/
theorem mkstemp_spec {names : String → Option Nat} (hg : g → Smooth c)
    (hroom : g → ∀ t k, c t = .done k → names (path ++ toString k) = none) :
    Triple (fun s => Keeps c path fd f s ∧ s.names = names) (mkstemp path)
      (fun tmp s' => Keeps c path fd f s' ∧ tmp ≠ path)
      (fun e s' => Keeps c path fd f s' ∧ Stopped g e) := by
  have hcall : Triple (fun s => Keeps c path fd f s ∧ s.names = names) call
      (fun k s' => (Keeps c path fd f s' ∧ s'.names = names) ∧ ∃ t, c t = .done k)
      (fun e s' => Keeps c path fd f s' ∧ Stopped g e) := by
    rintro s ⟨hk, hn⟩
    refine (Sys.Later.start (call_spec (hk.succeeds hg))).result.weaken ?_ ?_ s rfl
    · rintro k s' ⟨hrun, hl, -⟩
      refine ⟨⟨hk.later hl, hl.names.trans hn⟩, s.tick, ?_⟩
      rw [← hk.calls]
      unfold call at hrun
      grind
    · rintro e s' ⟨hl, he⟩
      exact ⟨hk.later hl, he⟩
  refine hcall.bind fun k => .assume (fun _ hs => hs.2) fun ⟨t, ht⟩ => .get_bind fun s hs => ?_
  obtain ⟨⟨hk, hn⟩, -⟩ := hs
  dsimp only
  cases htmp : s.names (path ++ toString k) with
  | some j =>
    refine .throw _ ?_
    rintro s rfl
    refine ⟨hk, (fun h => by cases h), fun h => ?_⟩
    rw [hn, hroom h t k ht] at htmp
    cases htmp
  | none =>
    have hne : path ++ toString k ≠ path := by
      intro heq
      rw [heq, hk.name] at htmp
      cases htmp
    rintro s rfl
    exact ⟨hk.created hne, hne⟩

theorem EndsBy.of_errno {r : MoveEnd} {e : Errno} {e' : Fault} (h : EndsBy g r (.errno e))
    (he : e' ≠ .outOfBounds) : EndsBy g r e' :=
  ⟨fun h' => absurd h' he, fun hgo => ⟨(h.2 hgo).1, fun hr => by cases (h.2 hgo).2 hr⟩⟩

theorem unlink_spec (hg : g → Smooth c) (hne : tmp ≠ path) {r : MoveEnd} (e : Errno) :
    Triple (fun s => Keeps c path fd f s ∧ EndsBy g r (.errno e)) (unlink tmp)
      (fun _ s => Keeps c path fd f s ∧ EndsBy g r (.errno e))
      (fun e' s => Keeps c path fd f s ∧ EndsBy g r e') := by
  rintro s ⟨hk, hends⟩
  refine Triple.bind ((callIgnored_spec (hk.succeeds hg)).err ?_)
    (fun b => Triple.ite (fun _ => Triple.modify ?_) fun _ => Triple.pure _ ?_) s (.refl s)
  · rintro e' s' ⟨hl, he'⟩
    exact ⟨hk.later hl, hends.of_errno he'.1⟩
  · intro s' hl
    have hk' := hk.later hl
    exact ⟨⟨hk'.calls, (if_neg hne.symm).trans hk'.name, hk'.file, hk'.fresh⟩, hends⟩
  · intro s' hl
    exact ⟨hk.later hl, hends⟩

theorem onFailure_spec {α : Type} {P : Sys → Prop} {x : SysM α} {cleanup : SysM Unit}
    {Q : α → Sys → Prop} {E E' : Fault → Sys → Prop} (h : Triple P x Q E)
    (hclean : ∀ e, Triple (E (.errno e)) cleanup (fun _ => E' (.errno e)) E')
    (hrest : ∀ e s, (∀ e', e ≠ .errno e') → E e s → E' e s) :
    Triple P (onFailure x cleanup) Q E' := by
  intro s hs
  have := h s hs
  unfold onFailure
  cases hx : x s with
  | ok a s' => rw [hx] at this; exact this
  | error e s' =>
    rw [hx] at this
    cases e with
    | errno e =>
      have hthrow : Triple (E (.errno e)) (cleanup >>= fun _ => throw (.errno e)) Q E' :=
        (hclean e).bind fun _ => .throw _ fun _ hs' => hs'
      exact hthrow s' this
    | killed => exact hrest _ _ (fun _ h => by cases h) this
    | outOfBounds => exact hrest _ _ (fun _ h => by cases h) this

/-- What follows `mkstemp` in `q_open`. -/
theorem copyAndRename_spec (hg : g → Smooth c) (hargs : argsOk qFlags m es = true)
    (hfile : qFlags.inFile = true) (hne : tmp ≠ path) (hd : OnDisk n es head held f)
    (hh : head < n) (hlen : held.length ≤ n) (hle : held.length ≤ m) :
    Triple (Keeps c path fd f) (do
        discard call
        discard call
        modify fun s => { s with names := fun p => if p = tmp then none else s.names p }
        let q2 ← qOpenNoResize { qFlags with creat := true, excl := true } tmp m es
        if q2.numEntries ≠ m then failWith .eio
        else do
          let q2 ← qMoveAll es (held.length + 1) (oldQueue qFlags m es fd n head held.length) q2
          let (_, q2) ← onQueue q2 syncFhState
          discard call
          modify fun s => { s with
            names := fun p => if p = path then s.names tmp
              else if p = tmp then none else s.names p }
          pure q2)
      (fun q s' => moveEnd qFlags.inMemory n m head held = .done ∧ Inv path m es ⟨s', q⟩ held ∧
        q.fd.isSome = true)
      (fun e s' => Keeps c path fd f s' ∧
        EndsBy g (moveEnd qFlags.inMemory n m head held) e) := by
  have hsz := sizes_of_argsOk hargs
  have hstop : ∀ e s', Keeps c path fd f s' ∧ Stopped g e → Keeps c path fd f s' ∧
      EndsBy g (moveEnd qFlags.inMemory n m head held) e := fun e s' he => ⟨he.1, he.2.endsBy _⟩
  have hcall : Triple (Keeps c path fd f) (discard call : SysM Unit) (fun _ => Keeps c path fd f)
      (fun e s' => Keeps c path fd f s' ∧ EndsBy g (moveEnd qFlags.inMemory n m head held) e) :=
    (Keeps.discardCall hg).err hstop
  refine hcall.bind fun _ => hcall.bind fun _ => .bind
    (Q := fun _ s => Keeps c path fd f s ∧ s.names tmp = none) (.modify fun s hk => ?_) fun _ =>
    .bind (Q := fun q₂ => Filling c path fd f tmp m es [] q₂)
      (fun s hs => (hs.1.qOpenNoResize hg hargs hfile hne hs.2).err hstop s rfl) fun q₂ => ?_
  · exact ⟨⟨hk.calls, (if_neg hne.symm).trans hk.name, hk.file, hk.fresh⟩, if_pos rfl⟩
  refine .ite (fun hnum => ?_) fun _ => ?_
  · intro s hs
    exact absurd hs.inv.numEntries hnum
  intro s hs
  refine Triple.bind (qMoveAll_spec hg hsz held [] head q₂ s hd hh hlen (by simpa using hle) hs)
    (fun q₃ => ?_) s rfl
  rw [nil_append]
  rintro s₁ ⟨hfill, hdone⟩
  refine Triple.bind ((hfill.sync hg hsz).err hstop) (fun ⟨_, q₄⟩ => ?_) s₁ rfl
  rintro s₂ ⟨hk, hnew, rfl⟩
  obtain ⟨fd₂, hfd₂, -⟩ := hfill.file
  refine Triple.bind (((discardCall_spec (hk.succeeds hg)).err
    fun e s' he => hstop e s' ⟨hk.later he.1, he.2⟩)) (fun _ => Triple.bind
    (Q := fun _ s => Inv path m es ⟨s, q₄⟩ held) (.modify fun s hl => ?_) fun _ =>
    Triple.pure q₄ fun _ hs => ⟨hdone, hs, by rw [hfd₂]; rfl⟩) s₂ (.refl s₂)
  have h : Inv tmp m es ⟨s, q₄⟩ held := InvAt.later hnew hl
  exact { h with named := fun fd' hfd' => (if_pos rfl).trans (h.named fd' hfd') }

/-- **What `q_open` does to the file**, for every schedule: if it returns, the file is the old one or
holds the same strings in a new size, and the queue on it holds them too; if it stops, the file is the
old one. -/
theorem qOpen_spec (hg : g → Smooth c) (hc : s.calls = c) (hfresh : fd < s.nextIno)
    (hroom : g → ∀ t k, c t = .done k → s.names (path ++ toString k) = none) (hsz : Sizes n es)
    (hmax : n ≤ sizeMax / es - 1) (h : FileHolds path n es fd head held s) :
    Triple (· = s) (qOpen qFlags path m es)
      (fun q s' => ((¬ Resizes qFlags n m es held.length ∧ FileHolds path n es fd head held s') ∨
        (n + 1 < 2 ^ 32 ∧ Resizes qFlags n m es held.length ∧
          moveEnd qFlags.inMemory n m head held = .done)) ∧
        (qFlags.inFile = true → Inv path m es ⟨s', q⟩ held ∧ q.fd.isSome = true))
      (fun e s' => Keeps c path fd (s.inodes fd) s' ∧
        (e = .outOfBounds → n + 1 < 2 ^ 32 ∧ Resizes qFlags n m es held.length) ∧
        (n + 1 < 2 ^ 32 → Resizes qFlags n m es held.length →
          EndsBy g (moveEnd qFlags.inMemory n m head held) e)) := by
  have hk₀ : Keeps c path fd (s.inodes fd) s := ⟨hc, h.named, rfl, hfresh⟩
  refine .bind ((qOpenNoResize_old (hk₀.succeeds hg) hsz hmax h).err ?_)
    fun q => .assume (fun _ hs => hs.2) fun hq => ?_
  · rintro e s' ⟨hl, hne, hnot⟩
    refine ⟨hk₀.later hl, fun he => absurd he hne, fun hn hr => ?_⟩
    exact ⟨fun he => absurd he hne, fun hgo => absurd ⟨hr.opens, hn⟩ (hnot hgo)⟩
  refine .pre (P := s.Later) ?_ fun _ hs => hs.1
  refine .ite (fun hm => .pure _ fun s' hl => ?_) fun hm => ?_
  · rcases hq with ⟨hfile, -⟩ | ⟨-, -, rfl⟩
    · refine ⟨.inl ⟨fun hr => ?_, h.later hl⟩, fun hin => ?_⟩
      · rw [hr.opens.inFile] at hfile
        cases hfile
      · rw [hin] at hfile
        cases hfile
    · obtain rfl : n = m := hm
      exact ⟨.inl ⟨fun hr => hr.ne rfl, h.later hl⟩, fun _ => ⟨inv_oldQueue (h.later hl), rfl⟩⟩
  rcases hq with ⟨-, hm'⟩ | ⟨hopens, hn, rfl⟩
  · exact absurd hm' hm
  refine .ite (fun hres => .throw _ fun s' hl =>
    ⟨hk₀.later hl, (fun h => by cases h), fun _ hr => ?_⟩) fun hres => ?_
  · have : qFlags.resize = true := hr.resize
    simp [oldQueue, initialQueue, this] at hres
  refine .ite (fun hlong => .throw _ fun s' hl =>
    ⟨hk₀.later hl, (fun h => by cases h), fun _ hr => ?_⟩) fun hlong => ?_
  · exact absurd hr.le (not_le.2 hlong)
  have hr : Resizes qFlags n m es held.length :=
    ⟨hopens, hm, by simpa [oldQueue, initialQueue] using hres, not_lt.1 hlong⟩
  have hstop : ∀ e s', Keeps c path fd (s.inodes fd) s' ∧ EndsBy g
      (moveEnd qFlags.inMemory n m head held) e → Keeps c path fd (s.inodes fd) s' ∧
      (e = .outOfBounds → n + 1 < 2 ^ 32 ∧ Resizes qFlags n m es held.length) ∧
      (n + 1 < 2 ^ 32 → Resizes qFlags n m es held.length →
        EndsBy g (moveEnd qFlags.inMemory n m head held) e) :=
    fun e s' he => ⟨he.1, fun _ => ⟨hn, hr⟩, fun _ _ => he.2⟩
  have hcall : Triple s.Later (discard call : SysM Unit) (fun _ => s.Later) _ :=
    (discardCall_spec (hk₀.succeeds hg)).err
      fun e s' he => hstop e s' ⟨hk₀.later he.1, he.2.endsBy _⟩
  refine hcall.bind fun _ => hcall.bind fun _ =>
    .bind ((mkstemp_spec hg hroom).conseq (fun s' hl => ⟨hk₀.later hl, hl.names⟩)
      (fun _ _ => id) fun e s' he => hstop e s' ⟨he.1, he.2.endsBy _⟩) fun tmp =>
    .assume (fun _ hs => hs.2) fun hne => ?_
  refine (onFailure_spec (copyAndRename_spec hg hopens.args hopens.inFile hne h.disk h.head_lt
    h.length_le hr.le) (fun e => (unlink_spec hg hne e).weaken ?_ hstop)
    fun e s' _ => hstop e s').conseq (fun _ hs => hs.1) ?_ fun _ _ => id
  · intro _ s' hs
    exact hstop _ s' hs
  · simp_all

end New

/-! ## When a crash is safe -/

section Safe

variable {path : String} {n es fd head m : Nat} {held : List CString} {s : Sys} {st : St}

/-- A file of `2 ^ 32 - 1` entries cannot be opened again. -/
theorem FileHolds.not_yields (hargs : argsOk fileFlags n es = true)
    (h : FileHolds path n es fd head held s) (hn : ¬ n + 1 < 2 ^ 32) {m' : Nat}
    {held₁ held₂ : List CString} : ¬ (Yields path m es s held₁ ∨ Yields path m' es s held₂) := by
  suffices hno : ∀ {m held'}, ¬ Yields path m es s held' from fun h => h.elim hno hno
  rintro m held' ⟨-, hyields⟩
  have hsmooth : Smooth fun _ => .done 1 := fun _ => ⟨1, Nat.one_pos, rfl⟩
  obtain ⟨q, s', hopen, -⟩ := hyields _ hsmooth fileFlags rfl rfl
  have hcalls : FileHolds path n es fd head held (s.withCalls fun _ => .done 1) := h.congr rfl rfl
  have hspec : Triple (· = s.withCalls fun _ => .done 1) (qOpenNoResize fileFlags path m es) _ _ :=
    qOpenNoResize_old (fun _ : True => hsmooth.succeeds rfl) (sizes_of_argsOk hargs)
      (argsOk_iff.mp hargs).2.2.2.2.2 hcalls
  have hold := hspec _ rfl
  cases hrun : qOpenNoResize fileFlags path m es (s.withCalls fun _ => .done 1) with
  | ok q₁ s₁ =>
    rw [hrun] at hold
    rcases hold.2 with ⟨hfile, -⟩ | ⟨-, hlt, -⟩
    · cases hfile
    · exact hn hlt
  | error e s₁ =>
    rw [qOpen, bind_error hrun] at hopen
    cases hopen

/-- How a run that a triple is about ends. -/
theorem ended_cases {α : Type} {x : QM α} {Q : α → St → Prop} {E : Fault → St → Prop}
    (h : Triple (· = st) x Q E) :
    (∃ a st', ended (x st) = (none, st'.sys) ∧ Q a st') ∨
      (∃ e st', ended (x st) = (some e, st'.sys) ∧ E e st') := by
  have := h st rfl
  cases hx : x st with
  | ok a st' => rw [hx] at this; exact .inl ⟨a, st', rfl, this⟩
  | error e st' => rw [hx] at this; exact .inr ⟨e, st', rfl, this⟩

/-- `q_append` and `q_drop_head`. -/
def FileOp.Writes : FileOp → Prop
  | .resize _ _ => False
  | _ => True

/-- Wherever one of the two stops, the file holds what it held before or what it holds after. -/
theorem FileOp.Writes.perform {op : FileOp} (hop : op.Writes) (hsz : Sizes n es)
    (h : Inv path n es st held) (hfd : st.q.fd = some fd) (hat : op.StateAtomic st) :
    (op.perform path es st).1 ≠ some .outOfBounds ∧ ∃ head,
      FileHolds path n es fd head held (op.perform path es st).2 ∨
      FileHolds path n es fd head (op.result n es held) (op.perform path es st).2 := by
  cases op with
  | append data =>
    rcases ended_cases (qAppend_crash hsz h hfd data hat) with ⟨_, st', hend, hnew⟩ |
      ⟨e, st', hend, he, hfile⟩
    · rw [FileOp.perform, hend]
      exact ⟨(fun h => by cases h), _, .inr hnew⟩
    · rw [FileOp.perform, hend]
      exact ⟨fun heq => he (some.inj heq), _, hfile⟩
  | dropHead =>
    rcases ended_cases (qDropHead_crash hsz h hfd hat) with ⟨_, st', hend, head, hnew⟩ |
      ⟨e, st', hend, he, hfile⟩
    · rw [FileOp.perform, hend]
      exact ⟨(fun h => by cases h), head, .inr hnew⟩
    · rw [FileOp.perform, hend]
      exact ⟨fun heq => he (some.inj heq), hfile⟩
  | resize qFlags m => exact hop.elim

/-- What lies outside the process is in order: inode numbers are not used twice, and there is always
another name for a temporary file. -/
structure Sys.Sound (s : Sys) : Prop where
  fresh : ∀ p ino, s.names p = some ino → ino < s.nextIno
  room : ∀ p : String, ∃ k : Nat, 0 < k ∧ s.names (p ++ toString k) = none

/-- When an operation is safe, on a queue that holds the strings of `held` from slot `head` on. -/
def FileOp.Safe (n es head : Nat) (held : List CString) : FileOp → Prop
  | .resize qFlags m => n + 1 < 2 ^ 32 ∧ (Resizes qFlags n m es held.length →
      moveEnd qFlags.inMemory n m head held ≠ .outside ∧
      (moveEnd qFlags.inMemory n m head held = .done → m + 1 < 2 ^ 32))
  | _ => n + 1 < 2 ^ 32

theorem argsOk_fileFlags {qFlags : Flags} (h : argsOk qFlags n es = true) :
    argsOk fileFlags n es = true := by
  obtain ⟨-, hrest⟩ := argsOk_iff.mp h
  exact argsOk_iff.mpr ⟨rfl, hrest⟩

/-- A schedule that never stops a write within the first eight bytes. -/
theorem FileOp.Writes.stateAtomic {op : FileOp} (hop : op.Writes)
    (hcalls : ∀ t k, st.sys.calls t = .done k → k = 0 ∨ 8 ≤ k) : op.StateAtomic st := by
  cases op with
  | append data =>
    intro st' hok k hk
    obtain ⟨hl, -⟩ := (qAppendNoSyncFhState_spec (g := False) False.elim data rfl).of_ok rfl hok
    rw [hl.calls, writtenPart_calls] at hk
    exact hcalls _ _ hk
  | dropHead =>
    intro st' hok k hk
    rw [(qDropHeadMemoryOnly_spec.of_ok rfl hok).1] at hk
    exact hcalls _ _ hk
  | resize => exact hop.elim

/-- **`q_append` and `q_drop_head` are safe** unless the file has too many entries. -/
theorem FileOp.Writes.crashSafe_iff_stateAtomic {op : FileOp} (hop : op.Writes)
    (hargs : argsOk fileFlags n es = true) (h : Inv path n es st held)
    (hfd : st.q.fd = some fd) : CrashSafe path n es op st held ↔ n + 1 < 2 ^ 32 := by
  have hsz := sizes_of_argsOk hargs
  have hcap : op.capacity n = n := by
    cases op with
    | append | dropHead => rfl
    | resize => exact hop.elim
  have hinv : ∀ c, Inv path n es { st with sys := st.sys.withCalls c } held :=
    fun c => InvAt.congr_sys h rfl fun _ _ => rfl
  unfold CrashSafe
  rw [hcap]
  constructor
  · intro hsafe
    by_contra hn
    have hkilled := hinv fun _ => .killed
    have hat : op.StateAtomic { st with sys := st.sys.withCalls fun _ => .killed } :=
      hop.stateAtomic fun _ _ h => by cases h
    obtain ⟨-, head, hfile⟩ := hop.perform hsz hkilled hfd hat
    rcases hfile with hfile | hfile
    · exact hfile.not_yields hargs hn (hsafe _ hat).2
    · exact hfile.not_yields hargs hn (hsafe _ hat).2
  · intro hn c hat
    obtain ⟨hne, head, hfile⟩ := hop.perform hsz (hinv c) hfd hat
    exact ⟨hne, hfile.imp (·.yields hargs hn) (·.yields hargs hn)⟩

/-- How `q_open` on a file that exists ends. -/
theorem resize_perform {c : Nat → Outcome} {g : Prop} (qFlags : Flags) (m : Nat) (hg : g → Smooth c)
    (hroom : g → ∀ t k, c t = .done k → st.sys.names (path ++ toString k) = none)
    (hargs : argsOk fileFlags n es = true) (hsound : st.sys.Sound) (h : Inv path n es st held)
    (hfd : st.q.fd = some fd) :
    (∃ s', (FileOp.resize qFlags m).perform path es { st with sys := st.sys.withCalls c } =
        (none, s') ∧
      ((¬ Resizes qFlags n m es held.length ∧ FileHolds path n es fd st.q.queueHead held s') ∨
        (n + 1 < 2 ^ 32 ∧ Resizes qFlags n m es held.length ∧
          moveEnd qFlags.inMemory n m st.q.queueHead held = .done ∧
          ∃ fd₂ head, FileHolds path m es fd₂ head held s'))) ∨
    (∃ e s', (FileOp.resize qFlags m).perform path es { st with sys := st.sys.withCalls c } =
        (some e, s') ∧
      FileHolds path n es fd st.q.queueHead held s' ∧
      (e = .outOfBounds → Resizes qFlags n m es held.length) ∧
      (n + 1 < 2 ^ 32 → Resizes qFlags n m es held.length →
        EndsBy g (moveEnd qFlags.inMemory n m st.q.queueHead held) e)) := by
  have hfile : FileHolds path n es fd st.q.queueHead held (st.sys.withCalls c) :=
    (h.fileHolds hfd).congr rfl rfl
  have hspec : Triple (· = st.sys.withCalls c) (qOpen qFlags path m es) _ _ :=
    qOpen_spec hg rfl (hsound.fresh path fd (h.named fd hfd)) hroom (sizes_of_argsOk hargs)
      (argsOk_iff.mp hargs).2.2.2.2.2 hfile
  have hlift : Triple (· = ({ st with sys := st.sys.withCalls c } : St))
      (liftSys (qOpen qFlags path m es)) _ _ := (liftSys_spec (q := st.q) hspec).pre (by
        rintro st rfl
        exact ⟨rfl, rfl⟩)
  rcases ended_cases hlift with ⟨q, st', hend, ⟨hok, hinv⟩, -⟩ | ⟨e, st', hend, ⟨hkeeps, herr⟩, -⟩
  · refine .inl ⟨st'.sys, hend, hok.imp id fun h => ⟨h.1, h.2.1, h.2.2, ?_⟩⟩
    obtain ⟨hinv, hsome⟩ := hinv h.2.1.opens.inFile
    obtain ⟨fd₂, hfd₂⟩ := isSome_iff_exists.mp hsome
    exact ⟨fd₂, q.queueHead, hinv.fileHolds hfd₂⟩
  · exact .inr ⟨e, st'.sys, hend, hfile.congr (hkeeps.name.trans hfile.named.symm) hkeeps.file,
      fun he => (herr.1 he).2, herr.2⟩

/-- **`q_open` on a file that exists** is safe unless it uses the array beyond its end, or makes a
file that cannot be opened again. -/
theorem resize_crashSafe_iff (hargs : argsOk fileFlags n es = true) (hsound : st.sys.Sound)
    (h : Inv path n es st held) (hfd : st.q.fd = some fd) (qFlags : Flags) :
    CrashSafe path n es (.resize qFlags m) st held ↔
      (FileOp.resize qFlags m).Safe n es st.q.queueHead held := by
  constructor
  · intro hsafe
    -- all calls succeed, and `mkstemp` finds a name
    obtain ⟨k, hk, hfree⟩ := hsound.room path
    have hsmooth : Smooth fun _ => .done k := fun _ => ⟨k, hk, rfl⟩
    have hroom : ∀ (t j : Nat), (fun _ : Nat => Outcome.done k) t = .done j →
        st.sys.names (path ++ toString j) = none := by
      intro t j hj
      rw [← Outcome.done.inj hj]
      exact hfree
    obtain ⟨hne, hyields⟩ := hsafe (fun _ => .done k) trivial
    rcases resize_perform (g := True) qFlags m (fun _ => hsmooth) (fun _ => hroom) hargs hsound h hfd
      with ⟨s', hend, hok⟩ | ⟨e, s', hend, hfile, hout, hends⟩
    · rw [hend] at hyields
      rcases hok with ⟨hnot, hfile⟩ | ⟨hn, hr, hdone, fd₂, _, hfile⟩
      · refine ⟨?_, fun hr => absurd hr hnot⟩
        by_contra hn
        exact hfile.not_yields hargs hn hyields
      · refine ⟨hn, fun _ => ⟨(by rw [hdone]; exact fun h => by cases h), fun _ => ?_⟩⟩
        by_contra hm
        exact hfile.not_yields (argsOk_fileFlags hr.opens.args) hm hyields
    · rw [hend] at hyields hne
      have hn : n + 1 < 2 ^ 32 := by
        by_contra hn
        exact hfile.not_yields hargs hn hyields
      refine ⟨hn, fun hr => ⟨fun hr' => ?_, fun hdone => ?_⟩⟩
      · exact hne (congrArg some (((hends hn hr).2 trivial).2 hr'))
      · exact absurd hdone ((hends hn hr).2 trivial).1
  · rintro ⟨hn, hsafe⟩ c -
    rcases resize_perform (g := False) qFlags m False.elim False.elim hargs hsound h hfd with
      ⟨s', hend, hok⟩ | ⟨e, s', hend, hfile, hout, hends⟩
    · rw [hend]
      refine ⟨(fun h => by cases h), ?_⟩
      rcases hok with ⟨-, hfile⟩ | ⟨-, hr, hdone, fd₂, _, hfile⟩
      · exact .inl (hfile.yields hargs hn)
      · exact .inr (hfile.yields (argsOk_fileFlags hr.opens.args) ((hsafe hr).2 hdone))
    · rw [hend]
      refine ⟨fun he => ?_, .inl (hfile.yields hargs hn)⟩
      have he : e = .outOfBounds := some.inj he
      have hr := hout he
      exact (hsafe hr).1 ((hends hn hr).1 he)

end Safe

/-- **When a crash is safe.**  Let the process die at any call of `q_append`, `q_drop_head` or `q_open`
on a queue file, or let any of the calls before it fail or transfer a part.  Opened again, the file
gives what it held before or what it holds after the operation, exactly if the operation is `Safe`. -/
theorem crashSafe_iff {path : String} {n es fd : Nat} {held : List CString} {st : St}
    (hargs : argsOk fileFlags n es = true) (hsound : st.sys.Sound) (h : Inv path n es st held)
    (hfd : st.q.fd = some fd) (op : FileOp) :
    CrashSafe path n es op st held ↔ op.Safe n es st.q.queueHead held := by
  cases op with
  | append data => exact FileOp.Writes.crashSafe_iff_stateAtomic trivial hargs h hfd
  | dropHead => exact FileOp.Writes.crashSafe_iff_stateAtomic trivial hargs h hfd
  | resize qFlags m => exact resize_crashSafe_iff hargs hsound h hfd qFlags

/-! ## A queue that is shrunk -/

/-- The string `a`. -/
def lastString : CString := ⟨[97], by decide⟩

/-- A queue file of four entries with one string, in the last of them. -/
def lastSlotFile : File :=
  ((newFile 4 32).write lastString.withNul 128).write (fhState 3 1) offsetofFhState

/-- A directory with nothing in it but that file. -/
def lastSlotSys : Sys :=
  ⟨fun _ => lastSlotFile, fun p => if p = "spool" then some 0 else none, 1, fun _ => .done (2 ^ 63), 0⟩

/-- The queue on that file. -/
def lastSlotQueue : St := ⟨lastSlotSys, fileQueue 0 4 32 3 1⟩

theorem lastSlotSys_sound : lastSlotSys.Sound where
  fresh p ino h := by
    by_cases hp : p = "spool"
    · simp only [lastSlotSys, hp, if_true] at h
      cases h
      decide
    · simp [lastSlotSys, hp] at h
  room p := by
    by_cases hp : p ++ toString 1 = "spool"
    · refine ⟨2, by decide, if_neg fun hp' => ?_⟩
      have hrepr : Nat.repr 1 = Nat.repr 2 := by simpa using hp.trans hp'.symm
      exact absurd hrepr (by decide)
    · exact ⟨1, by decide, if_neg hp⟩

theorem lastSlotQueue_inv : Inv "spool" 4 32 lastSlotQueue [lastString] := by
  have hfile : FileHolds "spool" 4 32 0 3 [lastString] lastSlotSys := by
    refine ⟨rfl, ⟨rfl, by decide +kernel, fun k a hk => ?_⟩, by decide +kernel, by decide, by decide⟩
    cases k with
    | zero =>
      obtain rfl : lastString = a := by simpa using hk
      exact ⟨by decide, by decide +kernel⟩
    | succ k => simp at hk
  exact hfile.inv

/-- Wherever a string is appended to it, a crash is safe. -/
theorem lastSlotQueue_append_safe :
    CrashSafe "spool" 4 32 (.append lastString) lastSlotQueue [lastString] :=
  (crashSafe_iff (by decide) lastSlotSys_sound lastSlotQueue_inv rfl (.append lastString)).2
    (show 4 + 1 < 2 ^ 32 by decide)

/-- **Shrunk to two entries and kept in memory as well, it is not**: the string is looked up in entry 3
of an array of two. -/
theorem lastSlotQueue_shrink_not_safe : Inv "spool" 4 32 lastSlotQueue [lastString] ∧
      ¬ CrashSafe "spool" 4 32 (.resize ⟨true, true, true, false, false, true⟩ 2) lastSlotQueue
        [lastString] := by
  refine ⟨lastSlotQueue_inv, fun hsafe => ?_⟩
  have h := ((resize_crashSafe_iff (by decide) lastSlotSys_sound lastSlotQueue_inv rfl _).1 hsafe).2
    ⟨⟨by decide, rfl, rfl⟩, by decide, rfl, by decide⟩
  exact h.1 (by decide)

end LibAudit.Spool
