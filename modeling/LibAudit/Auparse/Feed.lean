import LibAudit.Lib.Framing
import LibAudit.Auparse.Record
import LibAudit.Records.Timestamp

/-!
# The feed of `auparse.c`

A program that gets records in pieces hands them to `auparse_feed`, and gets a callback for every
event that is complete.  `auparse_flush_feed` ends the input: what is still being built is delivered
as it is.

`au_auparse_next_event` delivers a complete event if there is one, and otherwise reads lines until
there is.  Events are built in the slots of `au_lo` (`Slots.Table`; `au_ready` is the number of
complete slots and not kept separately, and slots that were never used are left out).

`Feed` records what has been delivered, and which records were dropped because they end an event that
is no longer being built (`eaten`), with the slots at that time.  Allocations succeed.  What lies
behind the copy of a line on the stack is `junk`, by the number of the line.
-/

namespace LibAudit.Auparse

open Records Slots Tables

/-! ## Records -/

/-- `rnode`: the text of a record, and where it came from. -/
structure Rnode where
  record : Bytes
  lineNumber : Nat
  deriving DecidableEq

/-- `r->type`. -/
def Rnode.type (r : Rnode) : Int := (parseUpRecord r.record).type

/-- The word that should have the time stamp: the one after the type, which comes after the node if
there is one. -/
def extractTimestamp (b junk : Bytes) : Option EventId :=
  match (Mem.ofLine b junk).strsplit 0 with
  | (_, none) => none
  | (m, some (ptr, saved)) =>
    let isNode := m.getD ptr 0 = 110
    let host := if isNode then some (m.str (ptr + 5)) else none
    -- a node is followed by the type, which is passed over as well
    let next := if isNode then m.strsplitNext saved else (m, some (ptr, saved))
    match next.1.strsplitNext (next.2.bind (·.2)) with
    | (_, none) => none
    | (m, some (ptr, _)) =>
      (m.stampStart ptr).bind fun start => str2event ((m.cutStamp start).str start) host

/-- A record of this type is the last of its event. -/
def endsEvent (type : Int) : Bool :=
  decide (type = auditProctitle ∨ type = auditEoe ∨ type < auditFirstEvent ∨
    auditFirstAnomMsg ≤ type ∨ type = auditKernel ∨
    (auditMacUnlblAllow ≤ type ∧ type ≤ auditMacCalipsoDel))

/-- The test of `au_check_events` at time `sec`: two seconds have elapsed, or the last record ends the
event. -/
def isDone (sec : Int64) (e : EventId) (records : List Rnode) : Bool :=
  match records.getLast? with
  | none => false
  | some r => decide (e.sec.toInt + 2 ≤ sec.toInt) || endsEvent r.type

/-! ## The state -/

/-- An event and its records. -/
abbrev EventList := EventId × List Rnode

/-- `auparse_state_t`, for a feed. -/
structure Feed where
  databuf : Bytes
  lineNumber : Nat
  auLo : Table EventId Rnode
  junk : Nat → Bytes
  delivered : List EventList
  eaten : List (Rnode × Table EventId Rnode)

/-- `auparse_init(AUSOURCE_FEED, NULL)`. -/
def Feed.init (junk : Nat → Bytes) : Feed := ⟨[], 0, [], junk, [], []⟩

/-- `readline_buf`: the next line, without its newline. -/
def Feed.readlineBuf (au : Feed) : Option (Rnode × Feed) :=
  match au.databuf.findIdx? (· == 10) with
  | none => none
  | some lineLen =>
    some (⟨untilNul (au.databuf.take lineLen), au.lineNumber + 1⟩,
      { au with databuf := au.databuf.drop (lineLen + 1), lineNumber := au.lineNumber + 1 })

/-- A line that was read: `au_lo` afterwards, and the event to return if one is ready. -/
def Feed.ingest (au : Feed) (r : Rnode) : Feed × Option EventList :=
  match extractTimestamp r.record (au.junk r.lineNumber) with
  | none => (au, none)
  | some e =>
    match extend e r au.auLo with
    | some auLo => ({ au with auLo := check (isDone e.sec) auLo }, none)
    | none =>
      -- standalone EOE, the main event was already marked complete
      if r.type = auditEoe then ({ au with eaten := au.eaten ++ [(r, au.auLo)] }, none)
      else
        let auLo := check (isDone e.sec) (insert e r au.auLo)
        match takeReady EventId.later auLo with
        | some (l, auLo) => ({ au with auLo }, some l)
        | none => ({ au with auLo }, none)

theorem Feed.databuf_ingest (au : Feed) (r : Rnode) : (au.ingest r).1.databuf = au.databuf := by
  unfold ingest
  split
  · rfl
  · split
    · rfl
    · split
      · rfl
      · dsimp only
        split <;> rfl

variable {au au' : Feed}

theorem Feed.databuf_readlineBuf {r : Rnode} (h : au.readlineBuf = some (r, au')) :
    au'.databuf.length < au.databuf.length := by
  unfold readlineBuf at h
  split at h
  · cases h
  · rename_i n hn
    injection h with h
    injection h with _ h
    subst h
    have := (List.findIdx?_eq_some_iff_getElem.mp hn).1
    show (au.databuf.drop (n + 1)).length < _
    rw [List.length_drop]
    omega

/-- The loop of `au_auparse_next_event`: lines are read until an event is ready or there are none. -/
def Feed.ingestLines (au : Feed) : Feed × Option EventList :=
  match _h : au.readlineBuf with
  | none => (au, none)
  | some (r, au') =>
    match _hr : au'.ingest r with
    | (au'', some l) => (au'', some l)
    | (au'', none) => ingestLines au''
termination_by au.databuf.length
decreasing_by
  have hd : au''.databuf = au'.databuf := by rw [← au'.databuf_ingest r, _hr]
  rw [hd]
  exact Feed.databuf_readlineBuf _h

/-- `au_auparse_next_event`: the event to deliver. -/
def Feed.nextEvent (au : Feed) : Feed × Option EventList :=
  match takeReady EventId.later au.auLo with
  | some (l, auLo) => ({ au with auLo }, some l)
  | none => au.ingestLines

theorem Feed.ingestLines_of_none (h : au.readlineBuf = none) : au.ingestLines = (au, none) := by
  rw [ingestLines]
  split
  · rfl
  · rename_i hr
    cases (h.symm.trans hr)

theorem Feed.ingestLines_of_some {r : Rnode} (h : au.readlineBuf = some (r, au')) : au.ingestLines =
      match au'.ingest r with
      | (au'', some l) => (au'', some l)
      | (au'', none) => au''.ingestLines := by
  rw [ingestLines]
  grind

theorem Feed.databuf_ingestLines {l : EventList}
    (h : au.ingestLines = (au', some l)) : au'.databuf.length < au.databuf.length := by
  induction au using ingestLines.induct with
  | case1 au hread =>
    rw [ingestLines_of_none hread] at h
    cases h
  | case2 au r au₁ hread au₂ l' hi =>
    rw [ingestLines_of_some hread, hi] at h
    injection h with h _
    have := au₁.databuf_ingest r
    rw [hi] at this
    rw [← h, this]
    exact databuf_readlineBuf hread
  | case3 au r au₁ hread au₂ hi ih =>
    rw [ingestLines_of_some hread, hi] at h
    have := au₁.databuf_ingest r
    rw [hi] at this
    have hlt := ih h
    rw [this] at hlt
    exact hlt.trans (databuf_readlineBuf hread)

/-- An event that is delivered was read, or is one less that is complete. -/
theorem Feed.nextEvent_decreases {l : EventList} (h : au.nextEvent = (au', some l)) :
    Prod.Lex (· < ·) (· < ·) (au'.databuf.length, (finished au'.auLo).length)
      (au.databuf.length, (finished au.auLo).length) := by
  unfold nextEvent at h
  split at h
  · rename_i auLo hready
    injection h with h _
    subst h
    have := (takeReady_eq_some hready).2.length_eq
    refine Prod.Lex.right _ ?_
    simp_all
  · exact Prod.Lex.left _ _ (databuf_ingestLines h)

/-- The loop of `consume_feed`: a callback for each event. -/
def Feed.deliverReady (au : Feed) : Feed :=
  match _h : au.nextEvent with
  | (au', none) => au'
  | (au', some l) => deliverReady { au' with delivered := au'.delivered ++ [l] }
termination_by (au.databuf.length, (finished au.auLo).length)
decreasing_by exact Feed.nextEvent_decreases _h

/-- The second loop of `consume_feed`, after all events were terminated. -/
def Feed.deliverAll (au : Feed) : Feed :=
  match _h : takeReady EventId.later au.auLo with
  | none => au
  | some (l, auLo) => deliverAll { au with auLo, delivered := au.delivered ++ [l] }
termination_by (finished au.auLo).length
decreasing_by
  show (finished auLo).length < _
  rw [(takeReady_eq_some _h).2.length_eq]
  exact Nat.lt_succ_self _

/-- `auparse_feed`. -/
def Feed.feed (au : Feed) (data : Bytes) : Feed :=
  { au with databuf := au.databuf ++ data }.deliverReady

/-- `auparse_flush_feed`. -/
def Feed.flush (au : Feed) : Feed :=
  let au := au.deliverReady
  { au with auLo := terminate au.auLo }.deliverAll

/-- A feed that is given these chunks and then flushed. -/
def feedAll (junk : Nat → Bytes) (chunks : List Bytes) : Feed :=
  (chunks.foldl Feed.feed (Feed.init junk)).flush

end LibAudit.Auparse
