import LibAudit.Auparse.Expr
import LibAudit.Auparse.Source

/-!
# Searching: `ausearch_next_event`

A search goes through the events of a source, and through the records of each event, until the
expression is true of a record.  Then the cursors are put where `ausearch_set_stop` says, and the next
call goes on with the next event.

The search works on the records themselves, whose cursors the evaluation moves.  `Source.stops` is what
it should find: the events that have a record of which the expression is true, each with the places of
the cursors.  An evaluation that has no result (`exprEval`) ends the search.
-/

namespace LibAudit.Auparse

open Records Slots List Option ParsedRecord

/-! ## Events -/

/-- `AUSEARCH_STOP_EVENT` and so on. -/
inductive Stop where
  | event | record | field
  deriving DecidableEq

/-- `event_list_t`: the event, its records as they are now, and the cursor. -/
structure Event where
  list : EventList
  records : List ParsedRecord
  cur : Option Nat

namespace Event

/-- `aup_list_first`. -/
def first (le : Event) : Event := { le with cur := if le.records = [] then none else some 0 }

/-- `aup_list_first_field`. -/
def firstField (le : Event) : Event :=
  match le.cur with
  | none => le
  | some i => { le with records := le.records.modify i ParsedRecord.nvlistFirst }

/-- The event that was got from the slots: both cursors are put at the beginning. -/
def ofList (l : EventList) : Event :=
  (⟨l, l.2.map ofRnode, none⟩ : Event).first.firstField

/-- `aup_list_next`, for an event that has a next record. -/
def next (le : Event) : Option Event :=
  le.cur.bind fun i => if i + 1 < le.records.length then some { le with cur := some (i + 1) } else none

/-- `ausearch_compare`. -/
def compare (O : Oracle) (x : Expr) (le : Event) : Option (Bool × Event) :=
  match le.cur.bind fun i => le.records[i]?.map (i, ·) with
  | none => some (false, le)
  | some (i, r) =>
    (exprEval O le.list.1 x r).map fun (b, r) => (b, { le with records := le.records.set i r })

/-- The loop over the records of an event, of which there are `n` left. -/
def search (O : Oracle) (x : Expr) : Nat → Event → Option (Bool × Event)
  | 0, le => some (false, le)
  | n + 1, le =>
    (le.compare O x).bind fun
      | (true, le) => some (true, le)
      | (false, le) =>
        match le.next with
        | none => some (false, le)
        | some le => search O x n le

/-- `ausearch_reposition_cursors`. -/
def reposition (le : Event) : Stop → Event
  | .event => le.first.firstField
  | .record => le.firstField
  | .field => le

end Event

open Event (ofList first firstField reposition)

/-! ## The search -/

/-- `auparse_state_t` during a search. -/
structure Search where
  au : Feed
  le : Option Event
  started : Bool

/-- `auparse_next_event`: whether there is one.  The last one has been freed. -/
def Search.nextEvent (source : Source) (s : Search) : Bool × Search :=
  match s.au.nextEventFrom source with
  | (au, none) => (false, { s with au, le := none })
  | (au, some l) =>
    (true, { s with au := { au with delivered := au.delivered ++ [l] }, le := some (ofList l) })

/-- `auparse_first_record`: whether there is one. -/
def Search.firstRecord (source : Source) (s : Search) : Bool × Search :=
  let (more, s) := if s.le.all (·.records.isEmpty) then s.nextEvent source else (true, s)
  if more then (true, { s with le := s.le.map fun le => le.first.firstField }) else (false, s)

variable {s : Search}

theorem Search.closer_nextEvent {source : Source} {s' : Search}
    (h : s.nextEvent source = (true, s')) : s'.au.Closer s.au := by
  unfold nextEvent at h
  split at h
  · cases h
  · rename_i hnext
    injection h with _ h
    subst h
    have hcloser := Feed.closer_nextEventFrom hnext
    exact hcloser

variable (O : Oracle) (x : Expr) (source : Source) (stop : Stop)

/-- The loop over the events. -/
def Search.events (s : Search) : Option (Bool × Search) :=
  match s.le with
  | none => some (false, s)
  | some le =>
    match le.search O x le.records.length with
    | none => none
    | some (true, le) => some (true, { s with le := some (le.reposition stop) })
    | some (false, le) =>
      match _h : { s with le := some le }.nextEvent source with
      | (false, s') => some (false, s')
      | (true, s') => Search.events s'
termination_by (s.au.databuf.length, s.au.events)
decreasing_by exact Search.closer_nextEvent _h

/-- `ausearch_next_event`: whether it returns 1. -/
def ausearchNextEvent (s : Search) : Option (Bool × Search) :=
  if s.started then
    match s.nextEvent source with
    | (false, s) => some (false, s)
    | (true, s) => s.events O x source stop
  else
    match s.firstRecord source with
    | (false, s) => some (false, s)
    | (true, s) => { s with started := true }.events O x source stop

/-- An event the search stops at, with the cursors. -/
structure Position where
  list : EventList
  record : Option Nat
  field : Option Nat
  deriving DecidableEq

/-- Where the cursors are. -/
def Event.position (le : Event) : Position :=
  ⟨le.list, le.cur, (le.cur.bind (le.records[·]?)).bind ParsedRecord.cur⟩

/-- Up to `n` calls, until one does not return 1: where the search is after each. -/
def Search.calls : Nat → Search → Option (List Position)
  | 0, _ => some []
  | n + 1, s =>
    (ausearchNextEvent O x source stop s).bind fun
      | (false, _) => some []
      | (true, s) => (Search.calls n s).map (s.le.toList.map Event.position ++ ·)

/-- A source that has just been opened. -/
def Search.init (junk : Nat → Bytes) (b : Bytes) : Search := ⟨source.init junk b, none, false⟩

/-! ## What is to be found -/

variable (l : EventList)

/-- The first record the expression is true of. -/
def firstMatch : Option Nat :=
  (ofList l).records.findIdx? fun r => x.holds O l.1 (r.shown O)

/-- The cursors for the stop mode, if the `k`th record is the first match. -/
def stopAt (k : Nat) : Position :=
  let field (i : Nat) (f : ParsedRecord → Option Nat) := ((ofList l).records[i]?).bind f
  match stop with
  | .event => ⟨l, some 0, field 0 fun r => r.nvlistFirst.cur⟩
  | .record => ⟨l, some k, field k fun r => r.nvlistFirst.cur⟩
  | .field => ⟨l, some k, field k fun r => x.cursor O l.1 (r.shown O) r.cur⟩

/-- All that should be found in these events. -/
def stops (ls : List EventList) : List Position :=
  ls.filterMap fun l => (firstMatch O x l).map (stopAt O x stop l)

/-- No field without a name is met in these records, up to the first match. -/
def ClearUntil (e : EventId) : List ParsedRecord → Prop
  | [] => True
  | r :: rs => x.Clear O e (r.shown O) ∧ (x.holds O e (r.shown O) = false → ClearUntil e rs)

/-! ## The records of an event -/

/-- The records of `l` before the `i`th have been evaluated. -/
structure Scanned (i : Nat) (le : Event) : Prop where
  list : le.list = l
  cur : le.cur = some i
  shown : le.records.map (shown O) = (ofList l).records.map (shown O)
  rest : le.records.drop i = (ofList l).records.drop i

/-- The expression has turned out to be true of the `k`th record of `l`. -/
structure Matched (k : Nat) (le : Event) : Prop where
  list : le.list = l
  cur : le.cur = some k
  shown : le.records.map (shown O) = (ofList l).records.map (shown O)
  inside : k < le.records.length
  field : (le.records[k]?).bind ParsedRecord.cur =
    ((ofList l).records[k]?).bind fun r => x.cursor O l.1 (r.shown O) r.cur

variable {O x source stop l}

theorem nvlistFirst_cur {r r' : ParsedRecord} (h : r.shown O = r'.shown O) :
    r.nvlistFirst.cur = r'.nvlistFirst.cur := by
  have hfields : r.nv.map (Nvnode.shown O r.line) = r'.nv.map (Nvnode.shown O r'.line) :=
    congrArg Shown.fields h
  have hnil : r.nv = [] ↔ r'.nv = [] := by
    rw [← map_eq_nil_iff (f := Nvnode.shown O r.line), hfields, map_eq_nil_iff]
  simp only [ParsedRecord.nvlistFirst, hnil]

namespace Scanned

variable {i : Nat} {le : Event}

theorem length (h : Scanned O l i le) : le.records.length = (ofList l).records.length := by
  have := congrArg List.length h.shown
  rwa [length_map, length_map] at this

theorem getElem? (h : Scanned O l i le) : le.records[i]? = (ofList l).records[i]? := by
  have := congrArg (·[0]?) h.rest
  simpa using this

end Scanned

theorem firstField_of_shown {R R' : List ParsedRecord}
    (h : R.map (shown O) = R'.map (shown O)) (j : Nat) :
    (R[j]?).bind (fun r => r.nvlistFirst.cur) = (R'[j]?).bind fun r => r.nvlistFirst.cur := by
  have hj : (R[j]?).map (shown O) = (R'[j]?).map (shown O) := by
    rw [← List.getElem?_map, ← List.getElem?_map, h]
  cases hr : R[j]? with
  | none =>
    rw [hr] at hj
    rw [map_eq_none_iff.mp hj.symm]
  | some r =>
    rw [hr] at hj
    obtain ⟨r', hr', hshown⟩ := map_eq_some_iff.mp hj.symm
    rw [hr']
    exact nvlistFirst_cur hshown.symm

theorem Matched.position {k : Nat} {le : Event} (h : Matched O x l k le) :
    (le.reposition stop).position = stopAt O x stop l k := by
  have hne : le.records ≠ [] := fun hnil => by
    have := h.inside
    rw [hnil] at this
    exact Nat.not_lt_zero k this
  have hmodify : ∀ (R : List ParsedRecord) (i : Nat),
      ((R.modify i ParsedRecord.nvlistFirst)[i]?).bind ParsedRecord.cur =
        (R[i]?).bind fun r => r.nvlistFirst.cur := by
    intro R i
    rw [List.getElem?_modify]
    cases R[i]? <;> simp
  cases stop with
  | event =>
    have hfirst : le.first = { le with cur := some 0 } := by rw [first, if_neg hne]
    rw [reposition, hfirst]
    show Position.mk le.list (some 0) ((le.records.modify 0 _)[0]?.bind _) = _
    rw [hmodify, h.list, firstField_of_shown h.shown]
    rfl
  | record =>
    rw [reposition, firstField, h.cur]
    show Position.mk le.list (some k) ((le.records.modify k _)[k]?.bind _) = _
    rw [hmodify, h.list, firstField_of_shown h.shown]
    rfl
  | field =>
    rw [reposition, Event.position, h.cur, bind_some, h.list, h.field]
    rfl

theorem set_of_getElem? {α : Type} {l : List α} {i : Nat} {a : α} (h : l[i]? = some a) :
    l.set i a = l := by
  obtain ⟨hi, rfl⟩ := List.getElem?_eq_some_iff.mp h
  exact set_getElem_self hi

theorem Scanned.next {i : Nat} {le : Event} {r r' : ParsedRecord} (h : Scanned O l i le)
    (hr : le.records[i]? = some r) (hshown : r'.shown O = r.shown O)
    (hi : i + 1 < le.records.length) :
    ∃ le', { le with records := le.records.set i r' }.next = some le' ∧ Scanned O l (i + 1) le' := by
  have hlen : i + 1 < (le.records.set i r').length := by rwa [length_set]
  refine ⟨{ le with records := le.records.set i r', cur := some (i + 1) }, ?_, h.list, rfl, ?_, ?_⟩
  · rw [Event.next, h.cur, bind_some, if_pos hlen]
  · rw [← h.shown, map_set, hshown]
    exact set_of_getElem? (by rw [List.getElem?_map, hr]; rfl)
  · have hrest := congrArg (List.drop 1) h.rest
    rw [drop_drop, drop_drop] at hrest
    rw [drop_set_of_lt (Nat.lt_succ_self i), hrest]

/-- The loop over the records that are left: it stops at the first match, or at the end, or has no
result. -/
theorem Scanned.search {i n : Nat} {le : Event} (h : Scanned O l i le)
    (hn : i + n = (ofList l).records.length) :
    (ClearUntil O x l.1 ((ofList l).records.drop i) ∧
        ((∃ m le', ((ofList l).records.drop i).findIdx? (fun r => x.holds O l.1 (r.shown O)) =
            some m ∧ le.search O x n = some (true, le') ∧ Matched O x l (i + m) le') ∨
          (((ofList l).records.drop i).findIdx? (fun r => x.holds O l.1 (r.shown O)) = none ∧
            ∃ le', le.search O x n = some (false, le')))) ∨
      (¬ ClearUntil O x l.1 ((ofList l).records.drop i) ∧ le.search O x n = none) := by
  induction n generalizing i le with
  | zero =>
    have hnil : (ofList l).records.drop i = [] := drop_eq_nil_of_le (by omega)
    rw [hnil]
    exact .inl ⟨trivial, .inr ⟨rfl, le, rfl⟩⟩
  | succ n ih =>
    have hi : i < (ofList l).records.length := by omega
    have hr := List.getElem?_eq_getElem hi
    have hdrop := drop_eq_getElem_cons hi
    generalize (ofList l).records[i] = r at hr hdrop
    have hle : le.records[i]? = some r := h.getElem?.trans hr
    have hsearch : le.search O x (n + 1) = (exprEval O l.1 x r).bind fun (b, r) =>
        if b then some (true, { le with records := le.records.set i r })
        else
          match ({ le with records := le.records.set i r } : Event).next with
          | none => some (false, { le with records := le.records.set i r })
          | some le => le.search O x n := by
      rw [Event.search, Event.compare, h.cur, bind_some, hle, h.list]
      show ((exprEval O l.1 x r).map _).bind _ = _
      rw [bind_map]
      refine congrArg _ (funext fun br => ?_)
      obtain ⟨b, r⟩ := br
      cases b <;> rfl
    rw [hdrop, ClearUntil, List.findIdx?_cons, hsearch]
    rcases exprEval_spec O l.1 x r with ⟨hclear, b, r', hb, heval⟩ | ⟨hnot, hnone⟩
    · rw [hb, ← heval.result, bind_some]
      cases b with
      | true =>
        refine .inl ⟨⟨hclear, nofun⟩, .inl ⟨0, _, rfl, rfl, h.list, h.cur, ?_, ?_, ?_⟩⟩
        · rw [← h.shown, map_set, heval.shown]
          exact set_of_getElem? (by rw [List.getElem?_map, hle]; rfl)
        · rw [length_set, h.length]
          exact hi
        · show ((le.records.set i r')[i]?).bind _ = ((ofList l).records[i]?).bind _
          rw [List.getElem?_set_self (h.length ▸ hi), hr]
          exact heval.cur
      | false =>
        simp only [if_neg Bool.false_ne_true, hclear, true_and, forall_const]
        by_cases hlast : i + 1 < le.records.length
        · obtain ⟨le', hnext, hscan⟩ := h.next hle heval.shown hlast
          rw [hnext]
          rcases ih hscan (by omega) with ⟨hrest, ⟨m, le'', hm, hfound, hmatch⟩ | ⟨hm, hend⟩⟩ | hnone
          · refine .inl ⟨hrest, .inl ⟨m + 1, le'', by rw [hm]; rfl, hfound, ?_⟩⟩
            rwa [Nat.add_assoc, Nat.add_comm 1] at hmatch
          · exact .inl ⟨hrest, .inr ⟨by rw [hm]; rfl, hend⟩⟩
          · exact .inr hnone
        · have hnext : ({ le with records := le.records.set i r' } : Event).next = none := by
            rw [Event.next, h.cur, bind_some, if_neg]
            rwa [length_set]
          have hnil : (ofList l).records.drop (i + 1) = [] :=
            drop_eq_nil_of_le (by rw [← h.length]; omega)
          rw [hnext, hnil]
          exact .inl ⟨trivial, .inr ⟨rfl, _, rfl⟩⟩
    · refine .inr ⟨fun hclear => hnot hclear.1, ?_⟩
      rw [hnone]
      rfl

theorem Event.search_ofList (l : EventList) : (ClearUntil O x l.1 (ofList l).records ∧
        ((∃ k le', firstMatch O x l = some k ∧
            (ofList l).search O x (ofList l).records.length = some (true, le') ∧
            Matched O x l k le') ∨
          (firstMatch O x l = none ∧
            ∃ le', (ofList l).search O x (ofList l).records.length =
              some (false, le')))) ∨
      (¬ ClearUntil O x l.1 (ofList l).records ∧
        (ofList l).search O x (ofList l).records.length = none) := by
  by_cases hnil : l.2 = []
  · have hrecords : (ofList l).records = [] := by
      simp [ofList, first, firstField, hnil]
    rw [firstMatch, hrecords]
    exact .inl ⟨trivial, .inr ⟨rfl, _, rfl⟩⟩
  · have hcur : (ofList l).cur = some 0 := by
      simp [ofList, first, firstField, hnil]
    have hlist : (ofList l).list = l := by
      simp [ofList, first, firstField, hnil]
    have hscan : Scanned O l 0 (ofList l) := ⟨hlist, hcur, rfl, rfl⟩
    rcases hscan.search (Nat.zero_add _) with ⟨hclear, ⟨m, le', hm, hfound⟩ | hend⟩ | hnone
    · rw [Nat.zero_add] at hfound
      exact .inl ⟨hclear, .inl ⟨m, le', hm, hfound⟩⟩
    · exact .inl ⟨hclear, .inr hend⟩
    · exact .inr hnone

/-! ## The events of a source -/

/-- The events that are still to come. -/
def Feed.upcoming (source : Source) (au : Feed) : List EventList :=
  match _h : au.nextEventFrom source with
  | (_, none) => []
  | (au', some l) => l :: upcoming source { au' with delivered := au'.delivered ++ [l] }
termination_by (au.databuf.length, au.events)
decreasing_by exact Feed.closer_nextEventFrom _h

theorem Feed.upcoming_eq (source : Source) (au : Feed) : au.upcoming source =
      match au.nextEventFrom source with
      | (_, none) => []
      | (au', some l) => l :: { au' with delivered := au'.delivered ++ [l] }.upcoming source := by
  rw [upcoming]
  split <;> rename_i h <;> rw [h]

theorem Feed.delivered_getReadyEvent (au : Feed) : au.getReadyEvent.1.delivered = au.delivered := by
  unfold getReadyEvent
  split <;> rfl

theorem Feed.delivered_retrieveNextLine {source : Source} {au au' : Feed} {r : Rnode}
    (h : au.retrieveNextLine source = .line r au') : au'.delivered = au.delivered := by
  have hspec := au.retrieveNextLine_spec source
  rw [h] at hspec
  obtain ⟨-, -, -, -, hau⟩ := hspec
  rw [hau]

theorem Feed.delivered_nextEventFrom (source : Source) (au : Feed) :
    (au.nextEventFrom source).1.delivered = au.delivered := by
  have hingest : ∀ au : Feed, (au.ingestFrom source).1.delivered = au.delivered := by
    intro au
    induction au using ingestFrom.induct source with
    | case1 au hread => rw [ingestFrom_of_noData hread]
    | case2 au hread =>
      rw [ingestFrom_of_eof hread, delivered_getReadyEvent]
      rfl
    | case3 au r au₁ hread au₂ l hi =>
      have hline := (delivered_ingest au₁ r).2
      rw [hi] at hline
      rw [ingestFrom_of_line hread, hi]
      exact hline.trans (delivered_retrieveNextLine hread)
    | case4 au r au₁ hread au₂ hi ih =>
      have hline := (delivered_ingest au₁ r).2
      rw [hi] at hline
      rw [ingestFrom_of_line hread, hi]
      exact ih.trans (hline.trans (delivered_retrieveNextLine hread))
  unfold nextEventFrom
  split
  · rename_i hready
    have := au.delivered_getReadyEvent
    rwa [hready] at this
  · rename_i hready
    rw [hingest, (getReadyEvent_eq_none hready).2]

theorem Feed.delivered_readAll (source : Source) (au : Feed) :
    (au.readAll source).delivered = au.delivered ++ au.upcoming source := by
  induction au using readAll.induct source with
  | case1 au au' hnext =>
    have hdelivered := au.delivered_nextEventFrom source
    simp [hnext, readAll_eq, upcoming_eq, ← hdelivered]
  | case2 au au' l hnext ih =>
    have hdelivered := au.delivered_nextEventFrom source
    rw [hnext] at hdelivered
    rw [readAll_eq, upcoming_eq, hnext, ← hdelivered]
    refine ih.trans ?_
    rw [append_assoc]
    rfl

theorem Source.events_eq_upcoming (source : Source) (junk : Nat → Bytes) (b : Bytes) :
    source.events junk b = (source.init junk b).upcoming source :=
  (Feed.delivered_readAll source _).trans (nil_append _)

/-! ## The search -/

theorem Search.nextEvent_of_nil (h : s.au.upcoming source = []) :
    ∃ s', s.nextEvent source = (false, s') := by
  rw [Feed.upcoming_eq] at h
  rw [nextEvent]
  split at h
  · exact ⟨_, rfl⟩
  · cases h

theorem Search.nextEvent_of_cons {l : EventList} {ls : List EventList}
    (h : s.au.upcoming source = l :: ls) :
    ∃ au', s.nextEvent source = (true, { s with au := au', le := some (ofList l) }) ∧
      au'.upcoming source = ls := by
  rw [Feed.upcoming_eq] at h
  rw [nextEvent]
  split at h
  · cases h
  · obtain ⟨rfl, rfl⟩ := List.cons.inj h
    exact ⟨_, rfl, rfl⟩

/-- The loop over the events, from the event `le` on. -/
theorem Search.events_of_le {le : Event} (h : s.le = some le) : s.events O x source stop =
      (le.search O x le.records.length).bind fun
        | (true, le) => some (true, { s with le := some (le.reposition stop) })
        | (false, le) =>
          match { s with le := some le }.nextEvent source with
          | (false, s') => some (false, s')
          | (true, s') => s'.events O x source stop := by
  rw [Search.events]
  split
  · rename_i hnone
    cases (hnone.symm.trans h)
  · rename_i le' hle
    obtain ⟨⟩ := hle.symm.trans h
    split
    · rename_i hsearch
      rw [hsearch]
      rfl
    · rename_i hsearch
      rw [hsearch]
      rfl
    · rename_i hsearch
      rw [hsearch, bind_some]
      dsimp only
      split <;> rename_i hnext <;> rw [hnext]

/-- A call that goes on with the next event. -/
theorem ausearchNextEvent_of_started (h : s.started = true) : ausearchNextEvent O x source stop s =
      match s.nextEvent source with
      | (false, s') => some (false, s')
      | (true, s') => s'.events O x source stop := by
  rw [ausearchNextEvent, if_pos h]

theorem Search.calls_iff (hs : s.started = true) {ls : List EventList}
    (hls : s.au.upcoming source = ls) :
    (∀ n, s.calls O x source stop n = some ((stops O x stop ls).take n)) ↔
      ∀ l ∈ ls, ClearUntil O x l.1 (ofList l).records := by
  induction ls generalizing s with
  | nil =>
    obtain ⟨s', hnext⟩ := nextEvent_of_nil hls
    refine ⟨fun _ _ hl => absurd hl not_mem_nil, fun _ n => ?_⟩
    cases n with
    | zero => rfl
    | succ n =>
      rw [calls, ausearchNextEvent_of_started hs, hnext]
      rfl
  | cons l ls ih =>
    obtain ⟨au', hnext, hrest⟩ := nextEvent_of_cons hls
    have hle : ({ s with au := au', le := some (ofList l) } : Search).le =
        some (ofList l) := rfl
    have hcall : ausearchNextEvent O x source stop s =
        ({ s with au := au', le := some (ofList l) } : Search).events O x source stop := by
      rw [ausearchNextEvent_of_started hs, hnext]
    rw [events_of_le hle] at hcall
    rw [forall_mem_cons]
    rcases Event.search_ofList l with ⟨hclear, ⟨k, le', hk, hfound, hmatch⟩ | ⟨hk, le', hend⟩⟩ |
      ⟨hnot, hnone⟩
    · -- the search stops here, and goes on with the other events
      rw [hfound, bind_some] at hcall
      have hstops : stops O x stop (l :: ls) = stopAt O x stop l k :: stops O x stop ls := by
        rw [stops, filterMap_cons, hk]
        rfl
      have hcalls : ∀ n, s.calls O x source stop (n + 1) =
          (({ s with au := au', le := some (le'.reposition stop) } : Search).calls O x source stop
            n).map (stopAt O x stop l k :: ·) := by
        simp [calls, hcall, bind_some, ← hmatch.position]
      rw [and_iff_right hclear, ← ih (s := { s with au := au', le := some (le'.reposition stop) })
        hs hrest, hstops]
      refine ⟨fun h n => ?_, fun h n => ?_⟩
      · have hn := h (n + 1)
        rw [hcalls, take_succ_cons] at hn
        exact map_injective (cons_injective) hn
      · cases n with
        | zero => rfl
        | succ n =>
          rw [hcalls, h n]
          rfl
    · -- the event is passed over
      rw [hend, bind_some] at hcall
      have hstops : stops O x stop (l :: ls) = stops O x stop ls := by
        rw [stops, filterMap_cons, hk]
        rfl
      have hcalls : ∀ n, s.calls O x source stop n =
          ({ s with au := au', le := some le' } : Search).calls O x source stop n := by
        intro n
        cases n with
        | zero => rfl
        | succ n =>
          rw [calls, calls, hcall,
            ausearchNextEvent_of_started (s := { s with au := au', le := some le' }) hs]
      simp_all
    · refine ⟨fun h => ?_, fun h => absurd h.1 hnot⟩
      have hone := h 1
      rw [calls, hcall, hnone] at hone
      cases hone

/-- Going back to the beginning of an event that has just become the current one. -/
theorem Event.first_firstField_ofList (l : EventList) :
    (ofList l).first.firstField = ofList l := by
  by_cases hnil : l.2 = []
  · simp [ofList, first, firstField, hnil]
  · have htwice : ∀ R : List ParsedRecord, (R.modify 0 ParsedRecord.nvlistFirst).modify 0
        ParsedRecord.nvlistFirst = R.modify 0 ParsedRecord.nvlistFirst := by
      intro R
      cases R <;> rfl
    simp [ofList, first, firstField, hnil, htwice]

theorem Search.nextEvent_started (s : Search) (b : Bool) : { s with started := b }.nextEvent source =
      ((s.nextEvent source).1, { (s.nextEvent source).2 with started := b }) := by
  unfold nextEvent
  dsimp only
  split <;> rfl

/-- The first call reads the first event, as any other call reads the next one. -/
theorem Search.calls_of_fresh (hs : s.started = false) (hle : s.le = none) (n : Nat) :
    s.calls O x source stop n = { s with started := true }.calls O x source stop n := by
  cases n with
  | zero => rfl
  | succ n =>
    have hnew : ¬ s.started = true := by
      rw [hs]
      exact Bool.false_ne_true
    rw [calls, calls, ausearchNextEvent, if_neg hnew,
      ausearchNextEvent_of_started (s := { s with started := true }) rfl, nextEvent_started]
    cases hls : s.au.upcoming source with
    | nil =>
      obtain ⟨s', hnext⟩ := nextEvent_of_nil hls
      have hfirst : s.firstRecord source = (false, s') := by simp [firstRecord, hle, hnext]
      rw [hfirst, hnext]
      rfl
    | cons l ls =>
      obtain ⟨au', hnext, -⟩ := nextEvent_of_cons hls
      have hfirst : s.firstRecord source =
          (true, { s with au := au', le := some (ofList l) }) := by
        simp [firstRecord, hle, hnext, Event.first_firstField_ofList]
      rw [hfirst, hnext]

/-- **A search visits exactly the events that have a match**, in the order in which they are
delivered and with the cursors where the stop mode says, exactly if no field without a name is met. -/
theorem search_visits_iff (O : Oracle) (x : Expr) (source : Source) (stop : Stop)
    (junk : Nat → Bytes) (b : Bytes) :
    (∀ n, (Search.init source junk b).calls O x source stop n =
        some ((stops O x stop (source.events junk b)).take n)) ↔
      ∀ l ∈ source.events junk b, ClearUntil O x l.1 (ofList l).records := by
  have hfresh : ∀ n, (Search.init source junk b).calls O x source stop n =
      { Search.init source junk b with started := true }.calls O x source stop n :=
    fun n => Search.calls_of_fresh rfl rfl n
  simp only [hfresh]
  exact Search.calls_iff rfl (Source.events_eq_upcoming source junk b).symm

section Counterexample

/-- A denial without braces. -/
def denial : Bytes := ascii "type=AVC msg=audit(7.000:1): avc: denied read for pid=1"

/-- Nothing is interpreted, and no regular expression matches. -/
def mute : Oracle := ⟨fun _ _ _ => none, fun _ _ => false⟩

theorem events_denial :
    Source.file.events (fun _ => []) denial = [(⟨7, 0, 1, none⟩, [⟨denial, 1⟩])] := by
  have hsplit : lines.split denial = ([], denial) := Framer.split_of_none (by decide)
  have hlines : records 0 (Source.file.lines denial) =
      [⟨untilNul (denial ++ [10]).dropLast, 1⟩] := by
    rw [Source.lines, hsplit]
    rfl
  have hread : (((Feed.init fun _ => []).readLines [⟨untilNul (denial ++ [10]).dropLast, 1⟩]).auLo,
      ((Feed.init fun _ => []).readLines [⟨untilNul (denial ++ [10]).dropLast, 1⟩]).delivered) =
        ([.building ⟨7, 0, 1, none⟩ [⟨denial, 1⟩]], []) := by
    decide +kernel
  obtain ⟨hauLo, hnone⟩ := Prod.mk.inj hread
  rw [Source.events_eq, Source.contents, hlines, Source.ends, Feed.close, if_pos rfl, Feed.finish,
    Feed.terminateAllEvents, hauLo]
  rw [Feed.deliverAll_of_some (l := (⟨7, 0, 1, none⟩, [⟨denial, 1⟩]))
    (show takeReady EventId.later (terminate [.building _ _]) = some (_, [.empty]) from rfl),
    Feed.deliverAll_of_none (show takeReady EventId.later [.empty] = none from rfl)]
  rw [hnone]
  rfl

/-- The event has a match, and the first call of the search has no result. -/
theorem search_fails_at_denial : (stops mute (.raw false (.name (ascii "pid")) (ascii "1")) .event
        (Source.file.events (fun _ => []) denial)).length = 1 ∧
      (Search.init .file (fun _ => []) denial).calls mute
        (.raw false (.name (ascii "pid")) (ascii "1")) .file .event 1 = none := by
  have hsearch : (ofList (⟨7, 0, 1, none⟩, [⟨denial, 1⟩])).search mute
      (.raw false (.name (ascii "pid")) (ascii "1")) 1 = none := by
    decide +kernel
  refine ⟨?_, ?_⟩
  · rw [events_denial]
    decide +kernel
  · have hup : (Source.file.init (fun _ => []) denial).upcoming .file =
        [(⟨7, 0, 1, none⟩, [⟨denial, 1⟩])] :=
      (Source.events_eq_upcoming _ _ _).symm.trans events_denial
    obtain ⟨au', hnext, -⟩ := Search.nextEvent_of_cons
      (s := { Search.init .file (fun _ => []) denial with started := true }) hup
    rw [Search.calls_of_fresh rfl rfl, Search.calls, ausearchNextEvent_of_started rfl, hnext]
    dsimp only
    rw [Search.events_of_le rfl]
    show ((ofList (⟨7, 0, 1, none⟩, [⟨denial, 1⟩])).search mute _ 1 |>.bind _).bind _ = none
    rw [hsearch]
    rfl

end Counterexample

end LibAudit.Auparse
