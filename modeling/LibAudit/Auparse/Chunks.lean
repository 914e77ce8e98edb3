import LibAudit.Auparse.Feed

/-!
# The pieces a feed comes in do not matter

Which events are delivered when does depend on the pieces, because a complete event is delivered by
the next call and its slot is then used again.  But a line only ever goes to an event that is being
built, and there is at most one with its time stamp and node.  So all that counts is which events are
being built, and which are complete or delivered, and for that the lines count and nothing else:
`assemble` is what a line does if nothing is delivered, and a feed is `Consistent` with it.

Every line is accounted for in the same invariant: it is in an event, or it was dropped.
-/

namespace LibAudit.Auparse

open Records Slots Tables List Option Feed

variable {junk : Nat → Bytes}

/-! ## Lines -/

/-- A line with its newline is a frame. -/
def lines : Framer UInt8 := Framer.delimited 10

/-- The records in these lines, numbered from `n + 1` on. -/
def records : Nat → List Bytes → List Rnode
  | _, [] => []
  | n, line :: rest => ⟨untilNul line.dropLast, n + 1⟩ :: records (n + 1) rest

theorem records_append (n : Nat) (a b : List Bytes) :
    records n (a ++ b) = records n a ++ records (n + a.length) b := by
  induction a generalizing n with
  | nil => rfl
  | cons line a ih =>
    rw [cons_append, records, records, ih, cons_append, length_cons, Nat.add_assoc, Nat.add_comm 1]

theorem lt_lineNumber_of_mem {n : Nat} {ls : List Bytes} {r : Rnode} (h : r ∈ records n ls) :
    n < r.lineNumber := by
  induction ls generalizing n with
  | nil => exact absurd h not_mem_nil
  | cons line ls ih =>
    rcases mem_cons.mp h with rfl | h
    · exact Nat.lt_succ_self n
    · exact (Nat.lt_succ_self n).trans (ih h)

theorem nodup_records (n : Nat) (ls : List Bytes) : (records n ls).Nodup := by
  induction ls generalizing n with
  | nil => exact nodup_nil
  | cons line ls ih =>
    rw [records, nodup_cons]
    refine ⟨fun hmem => ?_, ih (n + 1)⟩
    exact Nat.lt_irrefl _ (lt_lineNumber_of_mem hmem)

/-- Reading a line takes a frame off the buffer. -/
theorem readlineBuf_eq_some {au au' : Feed} {r : Rnode} (h : au.readlineBuf = some (r, au')) :
    ∃ line, lines.split au.databuf = (line :: (lines.split au'.databuf).1,
        (lines.split au'.databuf).2) ∧
      r = ⟨untilNul line.dropLast, au.lineNumber + 1⟩ ∧
      au' = { au with databuf := au'.databuf, lineNumber := au.lineNumber + 1 } := by
  unfold readlineBuf at h
  split at h
  · cases h
  · rename_i n hn
    injection h with h
    injection h with hr hau
    subst hr hau
    have hfirst : lines.first au.databuf = some (n + 1) := by
      show (au.databuf.findIdx? (· == 10)).map (· + 1) = _
      rw [hn]
      rfl
    have hlen := (findIdx?_eq_some_iff_getElem.mp hn).1
    refine ⟨au.databuf.take (n + 1), Framer.split_of_some hfirst, ?_, rfl⟩
    rw [dropLast_eq_take, length_take, Nat.min_eq_left hlen, Nat.succ_sub_one,
      take_take, Nat.min_eq_left (Nat.le_succ n)]

theorem readlineBuf_eq_none {au : Feed} (h : au.readlineBuf = none) :
    lines.split au.databuf = ([], au.databuf) := by
  refine Framer.split_of_none ?_
  unfold readlineBuf at h
  split at h
  · rename_i hn
    show (au.databuf.findIdx? (· == 10)).map (· + 1) = none
    rw [hn]
    rfl
  · cases h

/-! ## What a line does -/

/-- The line has a time stamp. -/
def Rnode.parses (junk : Nat → Bytes) (r : Rnode) : Bool :=
  (extractTimestamp r.record (junk r.lineNumber)).isSome

/-- What is in memory behind the lines makes no difference to their time stamps: a line that is read behind
its end finds the same there. -/
def StampedAlike (junk junk' : Nat → Bytes) (rs : List Rnode) : Prop :=
  ∀ r ∈ rs, extractTimestamp r.record (junk' r.lineNumber) = extractTimestamp r.record (junk r.lineNumber)

/-- What a line does if nothing is ever delivered. -/
def assemble (junk : Nat → Bytes) (T : Table EventId Rnode) (r : Rnode) : Table EventId Rnode :=
  match extractTimestamp r.record (junk r.lineNumber) with
  | none => T
  | some e =>
    match extend e r T with
    | some T => check (isDone e.sec) T
    | none => if r.type = auditEoe then T else check (isDone e.sec) (insert e r T)

/-- A record that ends an event which is not being built in `x.2`. -/
def Standalone (junk : Nat → Bytes) (x : Rnode × Table EventId Rnode) : Prop :=
  x.1.type = auditEoe ∧
    ∃ e, extractTimestamp x.1.record (junk x.1.lineNumber) = some e ∧ ∀ l ∈ building x.2, l.1 ≠ e

/-- The records of these events. -/
def recordsOf (ls : List EventList) : List Rnode := ls.flatMap Prod.snd

/-! ## The invariant -/

/-- The feed has read `rs`, and `out` has been delivered. -/
structure Consistent (junk : Nat → Bytes) (rs : List Rnode) (out : List EventList) (au : Feed) :
    Prop where
  memory : au.junk = junk
  similar : Similar out au.auLo (rs.foldl (assemble junk) [])
  accounted : (recordsOf out ++ pending au.auLo ++ au.eaten.map Prod.fst).Perm
    (rs.filter (Rnode.parses junk))
  eaten : ∀ x ∈ au.eaten, Standalone junk x

/-- One event more is delivered. -/
theorem Consistent.takeReady {rs : List Rnode} {out : List EventList} {au : Feed}
    (h : Consistent junk rs out au) {l : EventList} {auLo : Table EventId Rnode}
    (hready : takeReady EventId.later au.auLo = some (l, auLo)) :
    Consistent junk rs (out ++ [l]) { au with auLo } where
  __ := h
  similar := h.similar.takeReady hready
  accounted := by
    refine .trans (.append_right _ ?_) h.accounted
    rw [recordsOf, flatMap_append, append_assoc]
    refine .append_left _ ?_
    simpa using pending_takeReady hready

/-- One record more is in the slots. -/
theorem accounted_append {rs out eaten rs' : List Rnode} {t t' : Table EventId Rnode} {r : Rnode}
    (h : (out ++ pending t ++ eaten).Perm rs) (ht : (pending t').Perm (pending t ++ [r]))
    (hrs : rs' = rs ++ [r]) : (out ++ pending t' ++ eaten).Perm rs' := by grind

theorem foldl_assemble_concat (rs : List Rnode) (r : Rnode) :
    (rs ++ [r]).foldl (assemble junk) [] = assemble junk (rs.foldl (assemble junk) []) r := by
  rw [foldl_append]
  rfl

theorem filter_parses_concat (rs : List Rnode) {r : Rnode} {e : EventId}
    (he : extractTimestamp r.record (junk r.lineNumber) = some e) :
    (rs ++ [r]).filter (Rnode.parses junk) = rs.filter (Rnode.parses junk) ++ [r] := by
  simp [Rnode.parses, he, filter_append, filter_nil]

namespace Consistent

variable {rs : List Rnode} {out : List EventList} {au : Feed} {r : Rnode}

theorem skip (h : Consistent junk rs out au)
    (he : extractTimestamp r.record (junk r.lineNumber) = none) :
    Consistent junk (rs ++ [r]) out au where
  __ := h
  similar := by
    rw [foldl_assemble_concat, assemble, he]
    exact h.similar
  accounted := by
    have hno : ¬ r.parses junk = true := by
      rw [Rnode.parses, he]
      decide
    rw [filter_append, filter_cons_of_neg hno, filter_nil, append_nil]
    exact h.accounted

variable {e : EventId}

theorem extend (h : Consistent junk rs out au)
    (he : extractTimestamp r.record (junk r.lineNumber) = some e) {auLo : Table EventId Rnode}
    (hext : extend e r au.auLo = some auLo) :
    Consistent junk (rs ++ [r]) out { au with auLo := check (isDone e.sec) auLo } where
  __ := h
  similar := by
    obtain ⟨T, hT, hsim⟩ := h.similar.extend_eq_some hext
    rw [foldl_assemble_concat, assemble, he]
    dsimp only
    rw [hT]
    exact hsim.check (isDone e.sec)
  accounted := accounted_append h.accounted
    ((pending_check _ _).trans (pending_extend hext)) (filter_parses_concat rs he)

theorem eat (h : Consistent junk rs out au) (he : extractTimestamp r.record (junk r.lineNumber) = some e)
    (hext : Slots.extend e r au.auLo = none) (heoe : r.type = auditEoe) :
    Consistent junk (rs ++ [r]) out { au with eaten := au.eaten ++ [(r, au.auLo)] } where
  memory := h.memory
  similar := by
    rw [foldl_assemble_concat, assemble, he]
    dsimp only
    rw [h.similar.extend_eq_none hext]
    rw [if_pos heoe]
    exact h.similar
  accounted := by
    rw [filter_parses_concat rs he, map_append, ← append_assoc]
    exact h.accounted.append_right [r]
  eaten := by
    intro x hx
    rcases mem_append.mp hx with hx | hx
    · exact h.eaten x hx
    · rw [mem_singleton] at hx
      subst hx
      exact ⟨heoe, e, he, extend_eq_none_iff.mp hext⟩

theorem insert (h : Consistent junk rs out au)
    (he : extractTimestamp r.record (junk r.lineNumber) = some e)
    (hext : Slots.extend e r au.auLo = none) (heoe : r.type ≠ auditEoe) :
    Consistent junk (rs ++ [r]) out
      { au with auLo := check (isDone e.sec) (insert e r au.auLo) } where
  __ := h
  similar := by
    have hextT := h.similar.extend_eq_none hext
    rw [foldl_assemble_concat, assemble, he]
    dsimp only
    rw [hextT]
    rw [if_neg heoe]
    exact (h.similar.insert r (extend_eq_none_iff.mp hextT)).check (isDone e.sec)
  accounted := accounted_append h.accounted
    ((pending_check _ _).trans (pending_insert _ _ _)) (filter_parses_concat rs he)

/-- One line more has been read. -/
theorem ingest (h : Consistent junk rs out au) (r : Rnode) :
    Consistent junk (rs ++ [r]) (out ++ (au.ingest r).2.toList) (au.ingest r).1 := by
  obtain rfl := h.memory
  unfold ingest
  split
  · rename_i he
    simpa using h.skip he
  · rename_i e he
    split
    · rename_i auLo hext
      simpa using h.extend he hext
    · rename_i hext
      split
      · rename_i heoe
        simpa using h.eat he hext heoe
      · rename_i heoe
        have hnew := h.insert he hext heoe
        dsimp only
        split
        · rename_i hready
          exact hnew.takeReady hready
        · simpa using hnew

end Consistent

/-! ## Reading all lines -/

theorem delivered_ingest (au : Feed) (r : Rnode) :
    (au.ingest r).1.lineNumber = au.lineNumber ∧ (au.ingest r).1.delivered = au.delivered := by
  unfold ingest
  grind

/-- Of the stream, the lines `fs` have been read, and the rest is in the buffer; `o` is an event that
is about to be delivered. -/
structure Reading (junk : Nat → Bytes) (stream : Bytes) (fs : List Bytes) (o : Option EventList)
    (au : Feed) : Prop where
  frames : (lines.split stream).1 = fs ++ (lines.split au.databuf).1
  rest : (lines.split stream).2 = (lines.split au.databuf).2
  lineNumber : au.lineNumber = fs.length
  consistent : Consistent junk (records 0 fs) (au.delivered ++ o.toList) au

variable {stream : Bytes}

variable {fs : List Bytes}

/-- A line is read and put where it belongs. -/
theorem Reading.line {au au' : Feed} {r : Rnode}
    (h : Reading junk stream fs none au) (hread : au.readlineBuf = some (r, au')) :
    ∃ line, Reading junk stream (fs ++ [line]) (au'.ingest r).2 (au'.ingest r).1 := by
  obtain ⟨line, hsplit, hr, hau⟩ := readlineBuf_eq_some hread
  obtain ⟨hnumber, hdelivered⟩ := delivered_ingest au' r
  have hrec : records 0 (fs ++ [line]) = records 0 fs ++ [r] := by
    rw [records_append, Nat.zero_add, ← h.lineNumber, hr]
    rfl
  refine ⟨line, ⟨?_, ?_, ?_, ?_⟩⟩
  · rw [h.frames, hsplit, au'.databuf_ingest, append_assoc]
    rfl
  · rw [h.rest, hsplit, au'.databuf_ingest]
  · rw [hnumber, hau, length_append, h.lineNumber]
    rfl
  · have hc : Consistent junk (records 0 fs) au'.delivered au' := by
      have := h.consistent
      rw [toList_none, append_nil] at this
      rw [hau]
      exact ⟨this.memory, this.similar, this.accounted, this.eaten⟩
    rw [hrec, hdelivered]
    exact hc.ingest r

/-- `o` is an event, or there are no lines left. -/
def Exhausted (o : Option EventList) (au : Feed) : Prop :=
  o = none → lines.split au.databuf = ([], au.databuf)

theorem Reading.ingestLines {au : Feed} (h : Reading junk stream fs none au) :
    ∃ fs', Reading junk stream fs' au.ingestLines.2 au.ingestLines.1 ∧
      Exhausted au.ingestLines.2 au.ingestLines.1 := by
  induction au using ingestLines.induct generalizing fs with
  | case1 au hread =>
    rw [ingestLines_of_none hread]
    exact ⟨fs, h, fun _ => readlineBuf_eq_none hread⟩
  | case2 au r au' hread au'' l hi =>
    obtain ⟨line, hline⟩ := h.line hread
    rw [ingestLines_of_some hread, hi]
    rw [hi] at hline
    exact ⟨_, hline, (fun h => by cases h)⟩
  | case3 au r au' hread au'' hi ih =>
    obtain ⟨line, hline⟩ := h.line hread
    rw [ingestLines_of_some hread, hi]
    rw [hi] at hline
    exact ih hline

theorem Reading.nextEvent {au : Feed} (h : Reading junk stream fs none au) :
    ∃ fs', Reading junk stream fs' au.nextEvent.2 au.nextEvent.1 ∧
      Exhausted au.nextEvent.2 au.nextEvent.1 := by
  unfold Feed.nextEvent
  split
  · rename_i hready
    have hc := h.consistent
    rw [toList_none, append_nil] at hc
    exact ⟨fs, ⟨h.frames, h.rest, h.lineNumber, hc.takeReady hready⟩, (fun h => by cases h)⟩
  · exact h.ingestLines

/-- All lines of the stream have been read, and what follows the last newline is in the buffer. -/
structure Fed (junk : Nat → Bytes) (stream : Bytes) (au : Feed) : Prop where
  databuf : au.databuf = (lines.split stream).2
  lineNumber : au.lineNumber = (lines.split stream).1.length
  consistent : Consistent junk (records 0 (lines.split stream).1) au.delivered au

theorem Reading.fed {au : Feed} (h : Reading junk stream fs none au)
    (hend : Exhausted none au) : Fed junk stream au := by
  have hframes := h.frames
  have hrest := h.rest
  rw [hend rfl] at hframes hrest
  rw [append_nil] at hframes
  have hc := h.consistent
  rw [toList_none, append_nil] at hc
  refine ⟨hrest.symm, ?_, ?_⟩
  · rw [hframes, h.lineNumber]
  · rw [hframes]
    exact hc

/-- The loop ends when all lines have been read. -/
theorem Reading.deliverReady {au : Feed} (h : Reading junk stream fs none au) :
    Fed junk stream au.deliverReady := by
  induction au using deliverReady.induct generalizing fs with
  | case1 au au' hnext =>
    obtain ⟨fs', hread, hend⟩ := h.nextEvent
    rw [hnext] at hread hend
    rw [deliverReady]
    split
    · rename_i hn
      obtain ⟨⟩ := hnext.symm.trans hn
      exact hread.fed hend
    · rename_i hn
      cases (hnext.symm.trans hn)
  | case2 au au' l hnext ih =>
    obtain ⟨fs', hread, -⟩ := h.nextEvent
    rw [hnext] at hread
    rw [deliverReady]
    split
    · rename_i hn
      cases (hnext.symm.trans hn)
    · rename_i hn
      obtain ⟨⟩ := hnext.symm.trans hn
      have hc := hread.consistent
      refine ih ⟨hread.frames, hread.rest, hread.lineNumber, ?_⟩
      rw [toList_none, append_nil]
      exact { hc with }

theorem Fed.feed {au : Feed} (h : Fed junk stream au) (data : Bytes) :
    Fed junk (stream ++ data) (au.feed data) := by
  have hsplit := lines.split_append stream data
  have hc := h.consistent
  have hread : Reading junk (stream ++ data) (lines.split stream).1 none
      { au with databuf := au.databuf ++ data } := by
    refine ⟨?_, ?_, h.lineNumber, ?_⟩
    · rw [hsplit, h.databuf]
    · rw [hsplit, h.databuf]
    · rw [toList_none, append_nil]
      exact { hc with }
  exact hread.deliverReady

theorem fed_foldl {au : Feed} (h : Fed junk stream au) (chunks : List Bytes) :
    Fed junk (stream ++ chunks.flatten) (chunks.foldl feed au) := by
  induction chunks generalizing au stream with
  | nil =>
    rw [flatten_nil, append_nil]
    exact h
  | cons data chunks ih =>
    rw [flatten_cons, ← append_assoc]
    exact ih (h.feed data)

theorem fed_init (junk : Nat → Bytes) : Fed junk [] (init junk) where
  databuf := by
    rw [Framer.split_nil]
    rfl
  lineNumber := by
    rw [Framer.split_nil]
    rfl
  consistent := by
    rw [Framer.split_nil]
    exact ⟨rfl, ⟨.refl _, .refl _, nodup_nil⟩, .refl _, forall_mem_nil _⟩

/-! ## The end of the input -/

/-- The events a stream is made of. -/
def eventsOf (junk : Nat → Bytes) (stream : Bytes) : List EventList :=
  finished (terminate ((records 0 (lines.split stream).1).foldl (assemble junk) []))

/-- Nothing is being built any more, and what is complete is delivered one after another. -/
structure Ending (junk : Nat → Bytes) (stream : Bytes) (au : Feed) : Prop where
  building : building au.auLo = []
  finished : (au.delivered ++ finished au.auLo).Perm (eventsOf junk stream)
  accounted : (recordsOf au.delivered ++ pending au.auLo ++ au.eaten.map Prod.fst).Perm
    ((records 0 (lines.split stream).1).filter (Rnode.parses junk))
  eaten : ∀ x ∈ au.eaten, Standalone junk x

theorem Fed.ending {au : Feed} (h : Fed junk stream au) :
    Ending junk stream { au with auLo := terminate au.auLo } where
  building := building_terminate _
  finished := h.consistent.similar.terminate.finished
  accounted := (((pending_check _ _).append_left _).append_right _).trans h.consistent.accounted
  eaten := h.consistent.eaten

theorem Ending.deliverAll {au : Feed} (h : Ending junk stream au) :
    Ending junk stream au.deliverAll ∧ Slots.finished au.deliverAll.auLo = [] := by
  induction au using Feed.deliverAll.induct with
  | case1 au hready =>
    have hau : au.deliverAll = au := by
      rw [Feed.deliverAll]
      split
      · rfl
      · rename_i hr
        cases (hready.symm.trans hr)
    rw [hau]
    exact ⟨h, finished_eq_nil hready h.building⟩
  | case2 au l auLo hready ih =>
    have hau : au.deliverAll =
        { au with auLo, delivered := au.delivered ++ [l] }.deliverAll := by
      rw [Feed.deliverAll]
      split
      · rename_i hr
        cases (hready.symm.trans hr)
      · simp_all
    obtain ⟨hb, hfin⟩ := takeReady_eq_some hready
    rw [hau]
    refine ih ⟨hb.trans h.building, ?_, ?_, h.eaten⟩
    · rw [append_assoc]
      exact (hfin.symm.append_left _).trans h.finished
    · refine .trans (.append_right _ ?_) h.accounted
      rw [recordsOf, flatMap_append, append_assoc]
      refine .append_left _ ?_
      simpa using pending_takeReady hready

theorem ending_feedAll (junk : Nat → Bytes) (chunks : List Bytes) :
    Ending junk chunks.flatten (feedAll junk chunks) ∧
      finished (feedAll junk chunks).auLo = [] := by
  have hfed := fed_foldl (fed_init junk) chunks
  rw [nil_append] at hfed
  have hnone : lines.split (chunks.foldl feed (init junk)).databuf =
      ([], (chunks.foldl feed (init junk)).databuf) := by
    rw [hfed.databuf]
    exact Framer.split_of_none (Framer.first_split_snd _)
  have hread : Reading junk chunks.flatten (lines.split chunks.flatten).1 none
      (chunks.foldl feed (init junk)) := by
    refine ⟨?_, ?_, hfed.lineNumber, ?_⟩
    · rw [hnone, append_nil]
    · rw [hnone, hfed.databuf]
    · rw [toList_none, append_nil]
      exact hfed.consistent
  exact hread.deliverReady.ending.deliverAll

theorem delivered_feedAll (junk : Nat → Bytes) (chunks : List Bytes) :
    (feedAll junk chunks).delivered.Perm (eventsOf junk chunks.flatten) := by
  obtain ⟨hend, hnil⟩ := ending_feedAll junk chunks
  have := hend.finished
  rw [hnil, append_nil] at this
  exact this

/-- Every record that has a time stamp is in the events delivered, or was dropped. -/
theorem accounted_feedAll (junk : Nat → Bytes) (chunks : List Bytes) :
    (recordsOf (feedAll junk chunks).delivered ++
        (feedAll junk chunks).eaten.map Prod.fst).Perm
      ((records 0 (lines.split chunks.flatten).1).filter (Rnode.parses junk)) := by
  obtain ⟨hend, hnil⟩ := ending_feedAll junk chunks
  have := hend.accounted
  rw [pending, hnil, hend.building] at this
  simpa [recordsOf] using this

theorem eventsOf_congr {junk' : Nat → Bytes} {stream : Bytes}
    (h : StampedAlike junk junk' (records 0 (lines.split stream).1)) :
    eventsOf junk' stream = eventsOf junk stream := by
  have hfold : ∀ rs T, StampedAlike junk junk' rs → rs.foldl (assemble junk') T = rs.foldl (assemble junk) T := by
    intro rs
    induction rs with
    | nil => exact fun _ _ => rfl
    | cons r rs ih =>
      intro T h
      have hr := forall_mem_cons.mp h
      rw [foldl_cons, foldl_cons, ih _ hr.2, assemble, hr.1]
      rfl
  rw [eventsOf, eventsOf, hfold _ _ h]

/-- **The pieces a feed comes in do not matter**: the events delivered are the same, with the same
records in the same order, as if the whole stream were fed at once; and every line with a time stamp
is in exactly one of them, and there once, unless it ends an event that is not being built when it is
read.  What is in memory behind the lines may differ as long as it makes no difference to them. -/
theorem feedAll_chunks {junk junk' : Nat → Bytes} (chunks : List Bytes)
    (hjunk : StampedAlike junk junk' (records 0 (lines.split chunks.flatten).1)) :
    (feedAll junk chunks).delivered.Perm (feedAll junk' [chunks.flatten]).delivered ∧
      ∀ r ∈ records 0 (lines.split chunks.flatten).1, r.parses junk = true →
        (recordsOf (feedAll junk chunks).delivered).count r = 1 ∨
          ((recordsOf (feedAll junk chunks).delivered).count r = 0 ∧
            ∃ x ∈ (feedAll junk chunks).eaten, x.1 = r ∧ Standalone junk x) := by
  refine ⟨?_, fun r hr hparses => ?_⟩
  · have hwhole := delivered_feedAll junk' [chunks.flatten]
    rw [flatten_singleton, eventsOf_congr hjunk] at hwhole
    exact (delivered_feedAll junk chunks).trans hwhole.symm
  -- the record occurs once among all that have a time stamp, so it is on one side only
  have hcount := (accounted_feedAll junk chunks).count_eq r
  have hnodup := (nodup_records 0 (lines.split chunks.flatten).1).filter (Rnode.parses junk)
  rw [count_append, count_eq_one_of_mem hnodup (mem_filter.mpr ⟨hr, hparses⟩)] at hcount
  rcases Nat.eq_zero_or_pos (((feedAll junk chunks).eaten.map Prod.fst).count r) with hzero | hpos
  · exact .inl (by omega)
  · refine .inr ⟨by omega, ?_⟩
    obtain ⟨x, hx, rfl⟩ := mem_map.mp (count_pos_iff.mp hpos)
    exact ⟨x, hx, rfl, (ending_feedAll junk chunks).1.eaten x hx⟩

/-- A login. -/
def loginLine : Bytes := ascii "type=LOGIN msg=audit(7.000:1): pid=1\n"

/-- It comes in two pieces, and there is something else in memory behind it. -/
theorem feedAll_chunks_login :
    (feedAll (fun _ => []) [loginLine.take 20, loginLine.drop 20]).delivered.Perm
      (feedAll (fun _ => [49]) [loginLine]).delivered := by
  have hsplit : lines.split [loginLine.take 20, loginLine.drop 20].flatten = ([loginLine], []) := by
    show lines.split [loginLine].flatten = _
    exact Framer.split_flatten (by decide)
  refine (feedAll_chunks [loginLine.take 20, loginLine.drop 20] ?_).1
  rw [hsplit]
  exact forall_mem_singleton.mpr (by decide +kernel)

end LibAudit.Auparse
