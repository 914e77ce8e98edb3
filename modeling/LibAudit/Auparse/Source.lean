import LibAudit.Auparse.Chunks

/-!
# Reading a file and reading a buffer

`AUSOURCE_FILE` takes its lines from a file with `getline`, `AUSOURCE_BUFFER` from a copy of a string
with `readline_buf`.  They do not agree about the end.  `getline` returns what is behind the last
newline as a line; for `readline_buf` that is a line which has not arrived yet, so that
`au_auparse_next_event` returns 0 before it gets to terminate the events it has.  And a string ends at
its first NUL, whereas in a file only the line does.

`Feed.readLines` is what becomes of the lines alone; `Feed.readOn_same` reduces both sources to it.
-/

namespace LibAudit.Auparse

open Records Slots List Feed

/-! ## The two sources -/

/-- `AUSOURCE_FILE` and `AUSOURCE_BUFFER`. -/
inductive Source where
  | file | buffer
  deriving DecidableEq

/-- What `retrieve_next_line` returns: 1, and then there is a line; 0; or -2. -/
inductive Retrieved where
  | line (r : Rnode) (au : Feed)
  | noData
  | eof

/-- `readline_file`.  The file from where it is read next is in `databuf`. -/
def Feed.readlineFile (au : Feed) : Option (Rnode × Feed) :=
  if au.databuf = [] then none
  else
    let lineLen := au.databuf.findIdx (· == 10)
    some (⟨untilNul (au.databuf.take lineLen), au.lineNumber + 1⟩,
      { au with databuf := au.databuf.drop (lineLen + 1), lineNumber := au.lineNumber + 1 })

/-- `retrieve_next_line`. -/
def Feed.retrieveNextLine (au : Feed) : Source → Retrieved
  | .file =>
    match au.readlineFile with
    | none => .eof
    | some (r, au') => .line r au'
  | .buffer =>
    if au.databuf = [] then .eof
    else
      match au.readlineBuf with
      | none => .noData
      | some (r, au') => .line r au'

/-- The event that is ready, if there is one. -/
def Feed.getReadyEvent (au : Feed) : Feed × Option EventList :=
  match takeReady EventId.later au.auLo with
  | some (l, auLo) => ({ au with auLo }, some l)
  | none => (au, none)

/-- `au_terminate_all_events`. -/
def Feed.terminateAllEvents (au : Feed) : Feed := { au with auLo := terminate au.auLo }

theorem Feed.databuf_retrieveNextLine {source : Source} {au au' : Feed} {r : Rnode}
    (h : au.retrieveNextLine source = .line r au') : au'.databuf.length < au.databuf.length := by
  cases source with
  | file =>
    rw [retrieveNextLine, readlineFile] at h
    by_cases hnil : au.databuf = []
    · rw [if_pos hnil] at h
      cases h
    · rw [if_neg hnil] at h
      injection h with _ h
      subst h
      have := length_pos_iff.mpr hnil
      rw [length_drop]
      omega
  | buffer =>
    rw [retrieveNextLine] at h
    split at h
    · cases h
    · split at h
      · cases h
      · rename_i hread
        injection h with hr h
        subst hr h
        exact databuf_readlineBuf hread

/-- The loop of `au_auparse_next_event`. -/
def Feed.ingestFrom (source : Source) (au : Feed) : Feed × Option EventList :=
  match _h : au.retrieveNextLine source with
  | .noData => (au, none)
  | .eof => au.terminateAllEvents.getReadyEvent
  | .line r au' =>
    match _hr : au'.ingest r with
    | (au'', some l) => (au'', some l)
    | (au'', none) => ingestFrom source au''
termination_by au.databuf.length
decreasing_by
  have hd : au''.databuf = au'.databuf := by rw [← au'.databuf_ingest r, _hr]
  rw [hd]
  exact databuf_retrieveNextLine _h

/-- `au_auparse_next_event`: the event it makes the current one. -/
def Feed.nextEventFrom (source : Source) (au : Feed) : Feed × Option EventList :=
  match au.getReadyEvent with
  | (au', some l) => (au', some l)
  | (au', none) => au'.ingestFrom source

/-- How many events there are. -/
def Feed.events (au : Feed) : Nat := (finished au.auLo).length + (building au.auLo).length

/-- A call comes closer to the end if input has been read, or if there is one event less. -/
def Feed.Closer (au' au : Feed) : Prop :=
  Prod.Lex (· < ·) (· < ·) (au'.databuf.length, au'.events) (au.databuf.length, au.events)

variable {l : EventList}

theorem Feed.getReadyEvent_eq_some {au au' : Feed} (h : au.getReadyEvent = (au', some l)) :
    ∃ auLo, takeReady EventId.later au.auLo = some (l, auLo) ∧ au' = { au with auLo } := by
  unfold getReadyEvent at h
  split at h
  · simp_all
  · cases h

theorem Feed.getReadyEvent_eq_none {au au' : Feed} (h : au.getReadyEvent = (au', none)) :
    takeReady EventId.later au.auLo = none ∧ au' = au := by
  unfold getReadyEvent at h
  split at h
  · cases h
  · simp_all

theorem Feed.events_getReadyEvent {au au' : Feed} (h : au.getReadyEvent = (au', some l)) :
    au'.databuf = au.databuf ∧ au'.events < au.events := by
  obtain ⟨auLo, hready, rfl⟩ := getReadyEvent_eq_some h
  obtain ⟨hb, hfin⟩ := takeReady_eq_some hready
  refine ⟨rfl, ?_⟩
  have hlen := hfin.length_eq
  rw [length_cons] at hlen
  show (finished auLo).length + (building auLo).length < au.events
  rw [hb, events]
  omega

theorem Feed.events_terminateAllEvents (au : Feed) : au.terminateAllEvents.events = au.events := by
  have hfin := (finished_terminate au.auLo).length_eq
  rw [length_append] at hfin
  show (finished (terminate au.auLo)).length + (building (terminate au.auLo)).length = _
  rw [building_terminate, hfin, events]
  rfl

theorem Feed.closer_of_getReadyEvent {au au' : Feed}
    (h : au.getReadyEvent = (au', some l)) : au'.Closer au := by
  obtain ⟨hd, he⟩ := events_getReadyEvent h
  rw [Closer, hd]
  exact Prod.Lex.right _ he

section Loop

variable {source : Source} {au au' : Feed}

theorem Feed.ingestFrom_of_noData (h : au.retrieveNextLine source = .noData) :
    au.ingestFrom source = (au, none) := by
  rw [ingestFrom]
  split
  · rfl
  · rename_i hr
    cases (h.symm.trans hr)
  · rename_i hr
    cases (h.symm.trans hr)

theorem Feed.ingestFrom_of_eof (h : au.retrieveNextLine source = .eof) :
    au.ingestFrom source = au.terminateAllEvents.getReadyEvent := by
  rw [ingestFrom]
  split
  · rename_i hr
    cases (h.symm.trans hr)
  · rfl
  · rename_i hr
    cases (h.symm.trans hr)

theorem Feed.ingestFrom_of_line {r : Rnode} (h : au.retrieveNextLine source = .line r au') :
    au.ingestFrom source =
      match au'.ingest r with
      | (au'', some l) => (au'', some l)
      | (au'', none) => au''.ingestFrom source := by
  rw [ingestFrom]
  grind

theorem Feed.closer_ingestFrom (h : au.ingestFrom source = (au', some l)) : au'.Closer au := by
  induction au using ingestFrom.induct source with
  | case1 au hread =>
    rw [ingestFrom_of_noData hread] at h
    cases h
  | case2 au hread =>
    rw [ingestFrom_of_eof hread] at h
    have := closer_of_getReadyEvent h
    rw [Closer, events_terminateAllEvents] at this
    exact this
  | case3 au r au₁ hread au₂ l' hi =>
    rw [ingestFrom_of_line hread, hi] at h
    injection h with h _
    have hd := au₁.databuf_ingest r
    rw [hi] at hd
    rw [Closer, ← h, hd]
    exact Prod.Lex.left _ _ (databuf_retrieveNextLine hread)
  | case4 au r au₁ hread au₂ hi ih =>
    rw [ingestFrom_of_line hread, hi] at h
    have hd := au₁.databuf_ingest r
    rw [hi] at hd
    have hlt : au₂.databuf.length < au.databuf.length := hd ▸ databuf_retrieveNextLine hread
    rcases Prod.lex_def.mp (ih h) with hless | ⟨heq, -⟩
    · exact Prod.Lex.left _ _ (hless.trans hlt)
    · exact Prod.Lex.left _ _ (heq.trans_lt hlt)

theorem Feed.closer_nextEventFrom (h : au.nextEventFrom source = (au', some l)) : au'.Closer au := by
  unfold nextEventFrom at h
  split at h
  · rename_i hready
    injection h with hau _
    subst hau
    exact closer_of_getReadyEvent hready
  · rename_i hready
    rw [(getReadyEvent_eq_none hready).2] at h
    exact closer_ingestFrom h

end Loop

/-- Events are read until there are none. -/
def Feed.readAll (source : Source) (au : Feed) : Feed :=
  match _h : au.nextEventFrom source with
  | (au', none) => au'
  | (au', some l) => readAll source { au' with delivered := au'.delivered ++ [l] }
termination_by (au.databuf.length, au.events)
decreasing_by exact closer_nextEventFrom _h

/-- What there is to read: a buffer is a string. -/
def Source.contents : Source → Bytes → Bytes
  | .file, b => b
  | .buffer, b => untilNul b

/-- `auparse_init`. -/
def Source.init (source : Source) (junk : Nat → Bytes) (b : Bytes) : Feed :=
  { Feed.init junk with databuf := source.contents b }

/-- The events of the source, in the order in which they are read. -/
def Source.events (source : Source) (junk : Nat → Bytes) (b : Bytes) : List EventList :=
  ((source.init junk b).readAll source).delivered

/-! ## Lines only -/

/-- What becomes of these lines.  Once an event is ready, all that are ready are delivered before the
next line is read. -/
def Feed.readLines : Feed → List Rnode → Feed
  | au, [] => au
  | au, r :: rs =>
    match au.ingest r with
    | (au', none) => au'.readLines rs
    | (au', some l) => { au' with delivered := au'.delivered ++ [l] }.deliverAll.readLines rs

/-- The end of the input. -/
def Feed.finish (au : Feed) : Feed := au.terminateAllEvents.deliverAll

/-- What happens behind the last line. -/
def Feed.close (au : Feed) (ended : Bool) : Feed := if ended then au.finish else au

/-- The two differ in how far they have read, and in what they remember of dropped records. -/
structure Same (a b : Feed) : Prop where
  junk : a.junk = b.junk
  auLo : a.auLo = b.auLo
  delivered : a.delivered = b.delivered

namespace Same

variable {a b c : Feed}

theorem refl (a : Feed) : Same a a := ⟨rfl, rfl, rfl⟩

theorem trans (h : Same a b) (h' : Same b c) : Same a c :=
  ⟨h.junk.trans h'.junk, h.auLo.trans h'.auLo, h.delivered.trans h'.delivered⟩

theorem ingest (h : Same a b) (r : Rnode) :
    Same (a.ingest r).1 (b.ingest r).1 ∧ (a.ingest r).2 = (b.ingest r).2 := by
  unfold Feed.ingest
  rw [h.junk, h.auLo]
  split
  · exact ⟨h, rfl⟩
  · split
    · exact ⟨⟨rfl, rfl, h.delivered⟩, rfl⟩
    · split
      · exact ⟨⟨rfl, rfl, h.delivered⟩, rfl⟩
      · dsimp only
        split
        · exact ⟨⟨rfl, rfl, h.delivered⟩, rfl⟩
        · exact ⟨⟨rfl, rfl, h.delivered⟩, rfl⟩

theorem append (h : Same a b) (l : EventList) :
    Same { a with delivered := a.delivered ++ [l] } { b with delivered := b.delivered ++ [l] } :=
  ⟨h.junk, h.auLo, congrArg (· ++ [l]) h.delivered⟩

end Same

theorem Feed.deliverAll_of_none {au : Feed} (h : takeReady EventId.later au.auLo = none) :
    au.deliverAll = au := by
  rw [deliverAll]
  split
  · rfl
  · rename_i hr
    cases (h.symm.trans hr)

theorem Feed.deliverAll_of_some {au : Feed} {auLo : Table EventId Rnode}
    (h : takeReady EventId.later au.auLo = some (l, auLo)) :
    au.deliverAll = { au with auLo, delivered := au.delivered ++ [l] }.deliverAll := by
  rw [deliverAll]
  grind

namespace Same

variable {a b : Feed}

theorem deliverAll (h : Same a b) : Same a.deliverAll b.deliverAll := by
  induction a using deliverAll.induct generalizing b with
  | case1 a hready =>
    rw [Feed.deliverAll_of_none hready, Feed.deliverAll_of_none (h.auLo ▸ hready)]
    exact h
  | case2 a l auLo hready ih =>
    have hready' : Slots.takeReady EventId.later b.auLo = some (l, auLo) := h.auLo ▸ hready
    rw [deliverAll_of_some hready, deliverAll_of_some hready']
    exact ih ⟨h.junk, rfl, congrArg (· ++ [l]) h.delivered⟩

theorem finish (h : Same a b) : Same a.finish b.finish :=
  deliverAll ⟨h.junk, congrArg terminate h.auLo, h.delivered⟩

theorem close (h : Same a b) (ended : Bool) : Same (a.close ended) (b.close ended) := by
  cases ended with
  | false => exact h
  | true => exact h.finish

theorem readLines (h : Same a b) (rs : List Rnode) : Same (a.readLines rs) (b.readLines rs) := by
  induction rs generalizing a b with
  | nil => exact h
  | cons r rs ih =>
    obtain ⟨hau, hl⟩ := h.ingest r
    rw [readLines, readLines]
    rcases ha : a.ingest r with ⟨a', l⟩
    rcases hb : b.ingest r with ⟨b', l'⟩
    rw [ha, hb] at hau hl
    subst hl
    cases l with
    | none => exact ih hau
    | some l => exact ih (hau.append l).deliverAll

end Same

theorem Feed.readLines_append (au : Feed) (rs rs' : List Rnode) :
    au.readLines (rs ++ rs') = (au.readLines rs).readLines rs' := by
  induction rs generalizing au with
  | nil => rfl
  | cons r rs ih =>
    rw [cons_append, readLines, readLines]
    split
    · exact ih _
    · exact ih _

/-! ## Sources and lines -/

/-- Reading on when nothing is ready. -/
def Feed.readOn (source : Source) (au : Feed) : Feed :=
  match au.ingestFrom source with
  | (au', none) => au'
  | (au', some l) => { au' with delivered := au'.delivered ++ [l] }.readAll source

theorem Feed.readAll_eq (source : Source) (au : Feed) : au.readAll source =
      match au.nextEventFrom source with
      | (au', none) => au'
      | (au', some l) => { au' with delivered := au'.delivered ++ [l] }.readAll source := by
  rw [readAll]
  split <;> rename_i h <;> rw [h]

/-- What is ready is delivered before anything is read. -/
theorem Feed.readAll_eq_readOn (source : Source) (au : Feed) :
    au.readAll source = au.deliverAll.readOn source := by
  induction au using deliverAll.induct with
  | case1 au hready =>
    have hget : au.getReadyEvent = (au, none) := by
      rw [getReadyEvent, hready]
    rw [deliverAll_of_none hready, readAll_eq, nextEventFrom, hget, readOn]
  | case2 au l auLo hready ih =>
    have hget : au.getReadyEvent = ({ au with auLo }, some l) := by
      rw [getReadyEvent, hready]
    rw [deliverAll_of_some hready, readAll_eq, nextEventFrom, hget]
    exact ih

theorem Feed.retrieveNextLine_eq_eof {source : Source} {au : Feed} :
    au.retrieveNextLine source = .eof ↔ au.databuf = [] := by
  cases source with
  | file =>
    rw [retrieveNextLine, readlineFile]
    by_cases hnil : au.databuf = []
    · simp [hnil]
    · simp [hnil]
  | buffer =>
    rw [retrieveNextLine]
    grind

theorem Feed.deliverAll_spec (au : Feed) :
    au.deliverAll.databuf = au.databuf ∧ au.deliverAll.lineNumber = au.lineNumber ∧
      building au.deliverAll.auLo = building au.auLo ∧
      takeReady EventId.later au.deliverAll.auLo = none := by
  induction au using deliverAll.induct with
  | case1 au hready =>
    rw [deliverAll_of_none hready]
    exact ⟨rfl, rfl, rfl, hready⟩
  | case2 au l auLo hready ih =>
    obtain ⟨hdata, hnumber, hbuild, hnone⟩ := ih
    rw [deliverAll_of_some hready]
    exact ⟨hdata, hnumber, hbuild.trans (takeReady_eq_some hready).1, hnone⟩

section ReadOn

variable {source : Source} {au au' : Feed}

theorem Feed.readOn_of_noData (h : au.retrieveNextLine source = .noData) : au.readOn source = au := by
  rw [readOn, ingestFrom_of_noData h]

/-- A line that is read. -/
theorem Feed.readOn_of_line {r : Rnode} (h : au.retrieveNextLine source = .line r au') :
    au.readOn source =
      match au'.ingest r with
      | (au'', none) => au''.readOn source
      | (au'', some l) =>
        { au'' with delivered := au''.delivered ++ [l] }.deliverAll.readOn source := by
  rw [readOn, ingestFrom_of_line h]
  rcases au'.ingest r with ⟨au'', _ | l⟩
  · rfl
  · exact readAll_eq_readOn source _

/-- At the end all events are delivered, and asking again makes no difference. -/
theorem Feed.readOn_of_eof (h : au.retrieveNextLine source = .eof) : au.readOn source = au.finish := by
  have hfirst : ∀ au : Feed, au.retrieveNextLine source = .eof →
      takeReady EventId.later au.terminateAllEvents.auLo = none →
      au.readOn source = au.terminateAllEvents := by
    intro au hau hready
    have hget : au.terminateAllEvents.getReadyEvent = (au.terminateAllEvents, none) := by
      rw [getReadyEvent, hready]
    rw [readOn, ingestFrom_of_eof hau, hget]
  cases hready : takeReady EventId.later au.terminateAllEvents.auLo with
  | none => rw [hfirst au h hready, finish, deliverAll_of_none hready]
  | some x =>
    obtain ⟨l, auLo⟩ := x
    have hget : au.terminateAllEvents.getReadyEvent =
        ({ au.terminateAllEvents with auLo }, some l) := by
      rw [getReadyEvent, hready]
    obtain ⟨hdata, -, hbuild, hnone⟩ := au.terminateAllEvents.deliverAll_spec
    have hbuild' : building au.finish.auLo = [] := hbuild.trans (building_terminate au.auLo)
    have hagain : au.finish.terminateAllEvents = au.finish := by
      rw [terminateAllEvents, terminate_of_building_eq_nil hbuild']
    have hempty : au.databuf = [] := retrieveNextLine_eq_eof.mp h
    have heof : au.finish.retrieveNextLine source = .eof :=
      retrieveNextLine_eq_eof.mpr (hdata.trans hempty)
    rw [readOn, ingestFrom_of_eof h, hget]
    dsimp only
    rw [readAll_eq_readOn, ← deliverAll_of_some hready]
    show au.finish.readOn source = au.finish
    have hnone' : takeReady EventId.later au.finish.terminateAllEvents.auLo = none := by
      rw [hagain]
      exact hnone
    rw [hfirst au.finish heof hnone', hagain]

end ReadOn

/-- The lines that are read, each with a newline. -/
def Source.lines : Source → Bytes → List Bytes
  | .file, d =>
    (Auparse.lines.split d).1 ++
      if (Auparse.lines.split d).2 = [] then [] else [(Auparse.lines.split d).2 ++ [10]]
  | .buffer, d => (Auparse.lines.split d).1

/-- The end of the input is noticed. -/
def Source.ends : Source → Bytes → Bool
  | .file, _ => true
  | .buffer, d => (Auparse.lines.split d).2.isEmpty

/-- `retrieve_next_line` goes through the lines. -/
theorem Feed.retrieveNextLine_spec (source : Source) (au : Feed) : match au.retrieveNextLine source with
    | .eof => source.lines au.databuf = [] ∧ source.ends au.databuf = true
    | .noData => source.lines au.databuf = [] ∧ source.ends au.databuf = false
    | .line r au' => ∃ line, source.lines au.databuf = line :: source.lines au'.databuf ∧
        source.ends au.databuf = source.ends au'.databuf ∧
        r = ⟨untilNul line.dropLast, au.lineNumber + 1⟩ ∧
        au' = { au with databuf := au'.databuf, lineNumber := au.lineNumber + 1 } := by
  by_cases hnil : au.databuf = []
  · rw [retrieveNextLine_eq_eof.mpr hnil, hnil]
    cases source with
    | file => simp [Source.lines, Source.ends]
    | buffer => simp [Source.lines, Source.ends]
  cases source with
  | file =>
    rw [retrieveNextLine, readlineFile, if_neg hnil]
    cases hfind : au.databuf.findIdx? (· == 10) with
    | none =>
      -- what is behind the last newline is a line of its own
      have hsplit : Auparse.lines.split au.databuf = ([], au.databuf) := by
        refine Framer.split_of_none ?_
        show (au.databuf.findIdx? (· == 10)).map (· + 1) = none
        rw [hfind]
        rfl
      have hlen := findIdx?_eq_none_iff_findIdx_eq.mp hfind
      refine ⟨au.databuf ++ [10], ?_, rfl, ?_, rfl⟩
      · rw [hlen, drop_eq_nil_of_le (Nat.le_succ _)]
        simp [Source.lines, hsplit, hnil]
      · rw [hlen, take_length, dropLast_concat]
    | some n =>
      have hread : au.readlineBuf = some (⟨untilNul (au.databuf.take n), au.lineNumber + 1⟩,
          { au with databuf := au.databuf.drop (n + 1), lineNumber := au.lineNumber + 1 }) := by
        rw [readlineBuf, hfind]
      have hlen := (findIdx?_eq_some_iff_findIdx_eq.mp hfind).2
      obtain ⟨line, hsplit, hr, -⟩ := readlineBuf_eq_some hread
      rw [hlen]
      refine ⟨line, ?_, rfl, hr, rfl⟩
      rw [Source.lines, hsplit]
      rfl
  | buffer =>
    rw [retrieveNextLine, if_neg hnil]
    cases hread : au.readlineBuf with
    | none =>
      have hsplit := readlineBuf_eq_none hread
      simp [Source.lines, Source.ends, hsplit, hnil]
    | some x =>
      obtain ⟨r, au'⟩ := x
      obtain ⟨line, hsplit, hr, hau⟩ := readlineBuf_eq_some hread
      refine ⟨line, ?_, ?_, hr, hau⟩
      · rw [Source.lines, hsplit]
        rfl
      · rw [Source.ends, hsplit]
        rfl

/-- **Reading a source is reading its lines**, and then noticing the end or not. -/
theorem Feed.readOn_same (source : Source) (au : Feed) : Same (au.readOn source)
      ((au.readLines (records au.lineNumber (source.lines au.databuf))).close
        (source.ends au.databuf)) := by
  induction hn : au.databuf.length using Nat.strong_induction_on generalizing au with
  | _ n ih =>
    have hspec := au.retrieveNextLine_spec source
    cases hline : au.retrieveNextLine source with
    | eof =>
      rw [hline] at hspec
      rw [readOn_of_eof hline, hspec.1, hspec.2]
      exact Same.refl _
    | noData =>
      rw [hline] at hspec
      rw [readOn_of_noData hline, hspec.1, hspec.2]
      exact Same.refl _
    | line r au' =>
      rw [hline] at hspec
      obtain ⟨line, hlines, hends, hr, hau⟩ := hspec
      have hlt := databuf_retrieveNextLine hline
      have hsame : Same au' au := by
        rw [hau]
        exact ⟨rfl, rfl, rfl⟩
      -- the rest of the lines, from any state that has read this one
      have hrest : ∀ a b : Feed, Same a b → a.databuf = au'.databuf →
          a.lineNumber = au.lineNumber + 1 → Same (a.readOn source)
            ((b.readLines (records (au.lineNumber + 1) (source.lines au'.databuf))).close
              (source.ends au'.databuf)) := by
        intro a b hab hdata hnumber
        have := ih a.databuf.length (by rw [hdata, ← hn]; exact hlt) a rfl
        rw [hdata, hnumber] at this
        exact this.trans ((hab.readLines _).close _)
      obtain ⟨hi, hl⟩ := hsame.ingest r
      have hdata := au'.databuf_ingest r
      have hnumber : (au'.ingest r).1.lineNumber = au.lineNumber + 1 := by
        rw [(delivered_ingest au' r).1, hau]
      rw [readOn_of_line hline, hlines, records, ← hr, readLines, hends]
      rcases ha : au'.ingest r with ⟨a, o⟩
      rcases hb : au.ingest r with ⟨b, o'⟩
      rw [ha] at hi hl hdata hnumber
      rw [hb] at hi hl
      subst hl
      cases o with
      | none => exact hrest a b hi hdata hnumber
      | some l =>
        obtain ⟨hdata', hnumber', -⟩ := { a with delivered := a.delivered ++ [l] }.deliverAll_spec
        exact hrest _ _ (hi.append l).deliverAll (hdata'.trans hdata) (hnumber'.trans hnumber)

theorem Source.events_eq (source : Source) (junk : Nat → Bytes) (b : Bytes) : source.events junk b =
      (((Feed.init junk).readLines (records 0 (source.lines (source.contents b)))).close
        (source.ends (source.contents b))).delivered := by
  have hready : takeReady EventId.later (source.init junk b).auLo = none := rfl
  have hread := (source.init junk b).readOn_same source
  have hstart : Same (source.init junk b) (Feed.init junk) := ⟨rfl, rfl, rfl⟩
  rw [Source.events, Feed.readAll_eq_readOn, Feed.deliverAll_of_none hready, hread.delivered]
  exact ((hstart.readLines _).close _).delivered

end LibAudit.Auparse
