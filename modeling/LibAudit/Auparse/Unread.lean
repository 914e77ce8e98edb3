import LibAudit.Auparse.Source

/-!
# What a buffer leaves unread

The lines of a buffer are the first lines of the file with the same contents.  What the others do in
the file is decided by counting: a line is dropped, or it is one record more, and at the end of a file
every record has been delivered.  So the two sources agree exactly if all other lines are dropped, and
if, where the end of the buffer is not noticed, there are no more events.
-/

namespace LibAudit.Auparse

open Records Slots List Source

/-! ## What the buffer leaves unread -/

/-- What a buffer leaves unread: all that follows the last newline before the first NUL. -/
def unread (b : Bytes) : Bytes :=
  (lines.split (untilNul b)).2 ++ b.drop (untilNul b).length

theorem Source.lines_file (b : Bytes) :
    file.lines b = buffer.lines (untilNul b) ++ file.lines (unread b) := by
  have hb : untilNul b ++ b.drop (untilNul b).length = b :=
    prefix_iff_eq_append.mp (List.takeWhile_prefix _)
  have hsplit := Auparse.lines.split_append (untilNul b) (b.drop (untilNul b).length)
  rw [hb] at hsplit
  rw [Source.lines, hsplit, Source.lines, Source.lines, append_assoc]
  rfl

namespace Feed

/-- How many records have been delivered or are in the slots. -/
def size (au : Feed) : Nat := (recordsOf au.delivered).length + (pending au.auLo).length

theorem size_of_same {a b : Feed} (h : Same a b) : a.size = b.size := by
  rw [size, size, h.delivered, h.auLo]

theorem ingest_cases (au : Feed) (r : Rnode) :
    ((r.parses au.junk = true → Standalone au.junk (r, au.auLo)) ∧
        Same (au.ingest r).1 au ∧ (au.ingest r).2 = none) ∨
      (¬ (r.parses au.junk = true → Standalone au.junk (r, au.auLo)) ∧
        (recordsOf (au.ingest r).2.toList ++ pending (au.ingest r).1.auLo).Perm
          (pending au.auLo ++ [r])) := by
  unfold ingest
  split
  · rename_i he
    refine .inl ⟨fun hparses => ?_, Same.refl au, rfl⟩
    rw [Rnode.parses, he] at hparses
    cases hparses
  · rename_i e he
    have hparses : r.parses au.junk = true := by
      rw [Rnode.parses, he]
      rfl
    split
    · rename_i auLo hext
      refine .inr ⟨fun h => ?_, ?_⟩
      · obtain ⟨-, e', he', hnone⟩ := h hparses
        obtain ⟨⟩ := he.symm.trans he'
        rw [extend_eq_none_iff.mpr hnone] at hext
        cases hext
      · simpa [recordsOf] using (pending_check _ _).trans (pending_extend hext)
    · rename_i hext
      split
      · rename_i heoe
        exact .inl ⟨fun _ => ⟨heoe, e, he, extend_eq_none_iff.mp hext⟩, ⟨rfl, rfl, rfl⟩, rfl⟩
      · rename_i heoe
        refine .inr ⟨fun h => heoe (h hparses).1, ?_⟩
        have hpend := (pending_check (isDone e.sec) (Slots.insert e r au.auLo)).trans
          (pending_insert au.auLo e r)
        dsimp only
        split
        · rename_i hready
          simpa [recordsOf] using (pending_takeReady hready).trans hpend
        · simpa [recordsOf] using hpend

theorem size_deliverAll (au : Feed) : au.deliverAll.size = au.size := by
  induction au using deliverAll.induct with
  | case1 au hready => rw [deliverAll_of_none hready]
  | case2 au l auLo hready ih =>
    have hpend := (pending_takeReady hready).length_eq
    rw [deliverAll_of_some hready, ih]
    simp only [size, recordsOf, flatMap_append, length_append] at hpend ⊢
    simp only [flatMap_singleton]
    omega

/-- At the end everything has been delivered. -/
theorem size_finish (au : Feed) : (recordsOf au.finish.delivered).length = au.size := by
  obtain ⟨-, -, hbuild, hnone⟩ := au.terminateAllEvents.deliverAll_spec
  have hbuild' : building au.finish.auLo = [] := hbuild.trans (building_terminate au.auLo)
  have hsize : au.finish.size = au.size := by
    rw [finish, size_deliverAll, size, size]
    exact congrArg _ (pending_check _ _).length_eq
  have hfin : finished au.finish.auLo = [] := finished_eq_nil hnone hbuild'
  rw [← hsize, size, pending, hbuild', hfin]
  rfl

/-- At the end every event has been delivered. -/
theorem length_delivered_finish (au : Feed) :
    au.finish.delivered.length = au.delivered.length + au.events := by
  have hcount : ∀ a : Feed, a.deliverAll.delivered.length + (finished a.deliverAll.auLo).length =
      a.delivered.length + (finished a.auLo).length := by
    intro a
    induction a using deliverAll.induct with
    | case1 a hready => rw [deliverAll_of_none hready]
    | case2 a l auLo hready ih =>
      have hlen := (takeReady_eq_some hready).2.length_eq
      rw [deliverAll_of_some hready, ih]
      simp only [length_append, length_cons, length_nil] at hlen ⊢
      omega
  have h := hcount au.terminateAllEvents
  have hevents := au.events_terminateAllEvents
  obtain ⟨-, -, hbuild, hnone⟩ := au.terminateAllEvents.deliverAll_spec
  have hb : building au.terminateAllEvents.auLo = [] := building_terminate au.auLo
  rw [finished_eq_nil hnone (hbuild.trans hb)] at h
  rw [events, hb] at hevents
  rw [length_nil, Nat.add_zero] at h hevents
  rw [finish, h, hevents]
  rfl

theorem delivered_eq_finish_iff (au : Feed) : au.delivered = au.finish.delivered ↔ au.events = 0 := by
  have hlen := au.length_delivered_finish
  refine ⟨fun h => ?_, fun h => ?_⟩
  · rw [← h] at hlen
    omega
  · have hb : building au.auLo = [] :=
      eq_nil_of_length_eq_zero (Nat.eq_zero_of_add_eq_zero_left h)
    have hf : finished au.auLo = [] := eq_nil_of_length_eq_zero (Nat.eq_zero_of_add_eq_zero_right h)
    have hnone : takeReady EventId.later au.auLo = none := by
      cases hready : takeReady EventId.later au.auLo with
      | none => rfl
      | some x =>
        have := (takeReady_eq_some hready).2.length_eq
        rw [hf] at this
        cases this
    rw [finish, terminateAllEvents, terminate_of_building_eq_nil hb, deliverAll_of_none hnone]

theorem size_close (au : Feed) (ended : Bool) :
    (recordsOf (au.close ended).delivered).length ≤ au.size := by
  cases ended with
  | true => exact au.size_finish.le
  | false => exact Nat.le_add_right _ _

section Memory

variable (junk' : Nat → Bytes)

/-- The same with something else in memory behind the lines. -/
def withJunk (au : Feed) : Feed := { au with junk := junk' }

theorem deliverAll_withJunk (au : Feed) : (au.withJunk junk').deliverAll = au.deliverAll.withJunk junk' := by
  induction au using deliverAll.induct with
  | case1 au hready =>
    have hready' : takeReady EventId.later (au.withJunk junk').auLo = none := hready
    rw [deliverAll_of_none hready, deliverAll_of_none hready']
  | case2 au l auLo hready ih =>
    have hready' : takeReady EventId.later (au.withJunk junk').auLo = some (l, auLo) := hready
    rw [deliverAll_of_some hready, deliverAll_of_some hready']
    exact ih

theorem ingest_withJunk (au : Feed) {r : Rnode} (h : extractTimestamp r.record (junk' r.lineNumber) =
    extractTimestamp r.record (au.junk r.lineNumber)) :
    (au.withJunk junk').ingest r = ((au.ingest r).1.withJunk junk', (au.ingest r).2) := by
  rw [ingest, ingest, withJunk, h]
  cases extractTimestamp r.record (au.junk r.lineNumber) with
  | none => rfl
  | some e =>
    dsimp only
    cases extend e r au.auLo with
    | some auLo => rfl
    | none =>
      dsimp only
      split
      · rfl
      · cases takeReady EventId.later (check (isDone e.sec) (Slots.insert e r au.auLo)) <;> rfl

theorem junk_deliverAll (au : Feed) : au.deliverAll.junk = au.junk := by
  have hsame : au.deliverAll = au.deliverAll.withJunk au.junk := deliverAll_withJunk au.junk au
  rw [hsame]
  rfl

theorem junk_ingest (au : Feed) (r : Rnode) : (au.ingest r).1.junk = au.junk := by
  have hsame : au.ingest r = ((au.ingest r).1.withJunk au.junk, _) := ingest_withJunk au.junk au rfl
  rw [hsame]
  rfl

/-- Lines with the same time stamps lead to the same. -/
theorem readLines_withJunk (au : Feed) {rs : List Rnode} (h : StampedAlike au.junk junk' rs) :
    (au.withJunk junk').readLines rs = (au.readLines rs).withJunk junk' := by
  induction rs generalizing au with
  | nil => rfl
  | cons r rs ih =>
    obtain ⟨hr, hrs⟩ := forall_mem_cons.mp h
    rw [readLines, readLines, ingest_withJunk junk' au hr]
    have hjunk := junk_ingest au r
    rcases hi : au.ingest r with ⟨a, o⟩
    rw [hi] at hjunk
    cases o with
    | none => exact ih a (hjunk ▸ hrs)
    | some l =>
      show (withJunk junk' { a with delivered := a.delivered ++ [l] }).deliverAll.readLines rs = _
      rw [deliverAll_withJunk]
      exact ih _ (by rw [junk_deliverAll]; exact hjunk ▸ hrs)

theorem junk_readLines (au : Feed) (rs : List Rnode) : (au.readLines rs).junk = au.junk := by
  have hsame : au.readLines rs = (au.readLines rs).withJunk au.junk :=
    readLines_withJunk au.junk au fun _ _ => rfl
  rw [hsame]
  rfl

theorem delivered_finish_withJunk (au : Feed) : (au.withJunk junk').finish.delivered = au.finish.delivered := by
  have hfinish : (au.withJunk junk').finish = au.finish.withJunk junk' :=
    deliverAll_withJunk junk' au.terminateAllEvents
  rw [hfinish]
  rfl

end Memory

/-- A line is dropped, and nothing has changed; or there is one record more. -/
theorem readLine_cases (au : Feed) (r : Rnode) :
    ((r.parses au.junk = true → Standalone au.junk (r, au.auLo)) ∧ Same (au.readLines [r]) au) ∨
      (¬ (r.parses au.junk = true → Standalone au.junk (r, au.auLo)) ∧
        (au.readLines [r]).size = au.size + 1) := by
  have hdelivered := (delivered_ingest au r).2
  rw [readLines]
  rcases au.ingest_cases r with ⟨hdrop, hsame, hnone⟩ | ⟨hkeep, hperm⟩
  · rcases hi : au.ingest r with ⟨a, o⟩
    rw [hi] at hsame hnone
    dsimp only at hsame hnone
    subst hnone
    exact .inl ⟨hdrop, hsame⟩
  · refine .inr ⟨hkeep, ?_⟩
    rcases hi : au.ingest r with ⟨a, o⟩
    rw [hi] at hperm hdelivered
    dsimp only at hperm hdelivered
    have hlen := hperm.length_eq
    simp only [length_append, length_singleton] at hlen
    cases o with
    | none =>
      simp only [recordsOf, Option.toList_none, flatMap_nil, length_nil] at hlen
      simp only [readLines, size, hdelivered]
      omega
    | some l =>
      simp only [recordsOf, Option.toList_some] at hlen
      show ({ a with delivered := a.delivered ++ [l] } : Feed).deliverAll.size = _
      rw [size_deliverAll, size, size, hdelivered]
      simp only [recordsOf, flatMap_append, length_append]
      omega

theorem readLines_cons (au : Feed) (r : Rnode) (rs : List Rnode) :
    au.readLines (r :: rs) = (au.readLines [r]).readLines rs := au.readLines_append [r] rs

/-- All lines are dropped, and nothing has changed; or there are more records than before. -/
theorem readLines_cases (au : Feed) (rs : List Rnode) :
    ((∀ r ∈ rs, r.parses au.junk = true → Standalone au.junk (r, au.auLo)) ∧
        Same (au.readLines rs) au) ∨
      (¬ (∀ r ∈ rs, r.parses au.junk = true → Standalone au.junk (r, au.auLo)) ∧
        au.size < (au.readLines rs).size) := by
  induction rs generalizing au with
  | nil => exact .inl ⟨fun _ hr => absurd hr not_mem_nil, Same.refl au⟩
  | cons r rs ih =>
    have hstay := ih (au.readLines [r])
    rw [readLines_cons, forall_mem_cons]
    rcases au.readLine_cases r with ⟨hdrop, hsame⟩ | ⟨hkeep, hsize⟩
    · rw [hsame.junk, hsame.auLo, size_of_same hsame] at hstay
      refine hstay.imp (fun h => ⟨⟨hdrop, h.1⟩, h.2.trans hsame⟩) fun h => ⟨fun hall => h.1 hall.2, h.2⟩
    · refine .inr ⟨fun hall => hkeep hall.1, ?_⟩
      rcases hstay with ⟨-, hsame⟩ | ⟨-, hlt⟩
      · rw [size_of_same hsame, hsize]
        exact Nat.lt_succ_self _
      · omega

/-- Every line is at most one record more. -/
theorem size_readLines_le (au : Feed) (rs : List Rnode) : (au.readLines rs).size ≤ au.size + rs.length := by
  induction rs generalizing au with
  | nil => exact le_rfl
  | cons r rs ih =>
    have hrest := ih (au.readLines [r])
    rw [readLines_cons, length_cons]
    rcases au.readLine_cases r with ⟨-, hsame⟩ | ⟨-, hsize⟩
    · rw [size_of_same hsame] at hrest
      omega
    · omega

/-- It is one if it has a time stamp and does not end an event. -/
theorem size_readLines (au : Feed) {rs : List Rnode}
    (h : ∀ r ∈ rs, r.parses au.junk = true ∧ r.type ≠ Tables.auditEoe) :
    (au.readLines rs).size = au.size + rs.length := by
  induction rs generalizing au with
  | nil => rfl
  | cons r rs ih =>
    rw [forall_mem_cons] at h
    have hsize := (au.readLine_cases r).resolve_left fun hdrop => h.1.2 (hdrop.1 h.1.1).1
    have hrest := ih (au.readLines [r]) (by rw [junk_readLines]; exact h.2)
    rw [readLines_cons, hrest, hsize.2, length_cons]
    omega

end Feed

/-! ## When the two agree -/

/-- All that a buffer reads has been read. -/
def readSoFar (junk : Nat → Bytes) (b : Bytes) : Feed :=
  (Feed.init junk).readLines (records 0 (buffer.lines (untilNul b)))

/-- Whatever the buffer leaves unread is dropped in a file too; and if it ends in the middle of a
line, there are no more events to deliver. -/
structure NothingLost (junk : Nat → Bytes) (b : Bytes) : Prop where
  dropped : ∀ r ∈ records (buffer.lines (untilNul b)).length (file.lines (unread b)),
    r.parses junk = true → Standalone junk (r, (readSoFar junk b).auLo)
  delivered : buffer.ends (untilNul b) = true ∨ (readSoFar junk b).events = 0

theorem Source.events_buffer (junk : Nat → Bytes) (b : Bytes) : buffer.events junk b =
      ((readSoFar junk b).close (buffer.ends (untilNul b))).delivered :=
  events_eq .buffer junk b

theorem Source.events_file (junk : Nat → Bytes) (b : Bytes) : file.events junk b =
      ((readSoFar junk b).readLines (records (buffer.lines (untilNul b)).length
        (file.lines (unread b)))).finish.delivered := by
  rw [events_eq, contents, lines_file, records_append, Nat.zero_add, Feed.readLines_append]
  rfl

theorem Source.events_file_congr {junk junk' : Nat → Bytes} {b : Bytes}
    (h : StampedAlike junk junk' (records 0 (file.lines b))) :
    file.events junk' b = file.events junk b := by
  have hread : (Feed.init junk').readLines _ = _ := (Feed.init junk).readLines_withJunk junk' h
  rw [events_eq, events_eq, Source.contents, hread]
  exact Feed.delivered_finish_withJunk junk' _

/-- **A buffer yields the events of a file with the same contents** exactly if nothing is lost.  What is in
memory behind the lines may differ as long as it makes no difference to them. -/
theorem events_buffer_eq_file_iff {junk junk' : Nat → Bytes} {b : Bytes}
    (hstamps : StampedAlike junk junk' (records 0 (file.lines b))) :
    buffer.events junk b = file.events junk' b ↔ NothingLost junk b := by
  have hjunk : (readSoFar junk b).junk = junk := Feed.junk_readLines _ _
  rw [Source.events_buffer, Source.events_file_congr hstamps, Source.events_file]
  rcases (readSoFar junk b).readLines_cases (records (buffer.lines (untilNul b)).length
    (file.lines (unread b))) with ⟨hall, hsame⟩ | ⟨hnot, hlt⟩
  · rw [hjunk] at hall
    rw [hsame.finish.delivered]
    cases hends : buffer.ends (untilNul b) with
    | true => exact ⟨fun _ => ⟨hall, .inl hends⟩, fun _ => rfl⟩
    | false =>
      rw [Feed.close, if_neg Bool.false_ne_true, (readSoFar junk b).delivered_eq_finish_iff]
      refine ⟨fun h => ⟨hall, .inr h⟩, fun h => ?_⟩
      exact h.delivered.resolve_left (by rw [hends]; exact Bool.false_ne_true)
  · rw [hjunk] at hnot
    refine ⟨fun h => ?_, fun h => absurd h.dropped hnot⟩
    -- the file has delivered more records than the buffer has read
    have hmore := congrArg (fun ls => (recordsOf ls).length) h
    rw [Feed.size_finish] at hmore
    exact absurd hmore (Nat.ne_of_lt (lt_of_le_of_lt (Feed.size_close _ _) hlt))

/-- A line with its newline. -/
theorem events_login : buffer.events (fun _ => []) loginLine = file.events (fun _ => [49]) loginLine := by
  have hsplit : lines.split loginLine = ([loginLine], []) := by
    show lines.split [loginLine].flatten = _
    exact Framer.split_flatten (by decide)
  have hnul : untilNul loginLine = loginLine := by decide
  refine (events_buffer_eq_file_iff ?_).mpr ⟨?_, .inl ?_⟩
  · rw [Source.lines, hsplit]
    exact forall_mem_singleton.mpr (by decide +kernel)
  · rw [unread, hnul, hsplit, drop_length, append_nil, Source.lines, Framer.split_nil]
    exact forall_mem_nil _
  · rw [hnul, Source.ends, hsplit]
    rfl

/-- The last line is not read without its newline: a file has an event, the buffer has none. -/
theorem last_line_unread :
    buffer.events (fun _ => []) (ascii "type=LOGIN msg=audit(7.000:1): pid=1") = [] ∧
      (file.events (fun _ => [])
        (ascii "type=LOGIN msg=audit(7.000:1): pid=1")).length = 1 := by
  have hsplit : lines.split (untilNul (ascii "type=LOGIN msg=audit(7.000:1): pid=1")) =
      ([], ascii "type=LOGIN msg=audit(7.000:1): pid=1") := Framer.split_of_none (by decide)
  have hunread : lines.split (unread (ascii "type=LOGIN msg=audit(7.000:1): pid=1")) =
      ([], ascii "type=LOGIN msg=audit(7.000:1): pid=1") := by
    rw [unread, hsplit]
    exact Framer.split_of_none (by decide)
  refine ⟨?_, ?_⟩
  · rw [Source.events_buffer, readSoFar, Source.lines, Source.ends, hsplit]
    rfl
  · rw [Source.events_file, Feed.length_delivered_finish, readSoFar, Source.lines, Source.lines,
      hsplit, hunread]
    decide +kernel

end LibAudit.Auparse
