import LibAudit.Lib.SlotArray
import LibAudit.Search.Lol

/-!
# The array behind `ausearch`

`Search.Lol` has the events of `ausearch` in a table.  The program has them in an array of `lolnode`s,
with `maxi`, the index of the last slot that may be used, and `ready`, the number of complete events.
`get_ready_event` lowers `maxi` when it has emptied the last slot, and `lol_append` makes the array
larger when it is full; allocations succeed, and no number gets too large for an `int`.

Whatever the order in which lines are added and events are taken, the array stays as it should be
(`sound_run_calls`), and returns what the table does (`returned_eq`).
-/

namespace LibAudit.Search.EventArray

open Records Slots Tables List

/-! ## `ausearch-lol.c` -/

/-- `lol`, and `ready`.  There are `limit` slots in the array. -/
abbrev LolArray := SlotArray EventId Lnode

/-- `ARRAY_LIMIT`. -/
def arrayLimit : Nat := 80

/-- `lol_create`. -/
def lolCreate : LolArray := .create arrayLimit

/-- `lol_append`, of an event with one record. -/
def lolAppend (lo : LolArray) (e : EventId) (n : Lnode) : LolArray := lo.append arrayLimit e n

/-- `check_events`. -/
def checkEvents (lo : LolArray) (sec : Int64) : LolArray := lo.check (isDone sec)

/-- `lol_add_record`: the array afterwards, and whether the line was accepted. -/
def lolAddRecord (f : Filter) (lo : LolArray) (n : Nat) (line : Line) : LolArray × Bool :=
  match extractTimestamp f line with
  | none => (lo, false)
  | some (e, type) =>
    let node : Lnode := ⟨line.buff.bytes, type, n⟩
    match lo.extend e node with
    | some lo => (lo, true)
    | none =>
      -- standalone EOE, the main event was already marked complete
      if type.toInt = auditEoe then (lo, false)
      else (checkEvents (lolAppend lo e node) e.sec, true)

/-- `terminate_all_events`. -/
def terminateAllEvents (lo : LolArray) : LolArray := lo.check fun _ _ => true

/-- `get_ready_event`. -/
def getReadyEvent (lo : LolArray) : Option (Llist × LolArray) :=
  match lo.takeReady EventId.later with
  | none => none
  | some (i, l, lo) =>
    -- less of the array is looked through the next time if its last slot is empty now
    if i = lo.maxi then some (l, { lo with maxi := SlotArray.lastUsed lo.array lo.maxi.toNat })
    else some (l, lo)

/-! ## Sequences of calls -/

/-- What is done to the array. -/
inductive Call
  | addRecord (line : Line)
  | getReadyEvent
  | terminateAllEvents

/-- The array, with the number of lines so far, the lines that were accepted, and what was returned. -/
structure Run where
  lo : LolArray
  lines : Nat
  accepted : List (EventId × Lnode)
  returned : List Llist

namespace Run

/-- At the start of the program. -/
def start : Run := ⟨lolCreate, 0, [], []⟩

/-- One call. -/
def call (f : Filter) (s : Run) : Call → Run
  | .addRecord line =>
    let r := lolAddRecord f s.lo s.lines line
    let record := (extractTimestamp f line).map fun (e, type) =>
      (e, (⟨line.buff.bytes, type, s.lines⟩ : Lnode))
    { s with
      lo := r.1
      lines := s.lines + 1
      accepted := if r.2 then s.accepted ++ record.toList else s.accepted }
  | .getReadyEvent =>
    match EventArray.getReadyEvent s.lo with
    | none => s
    | some (l, lo) => { s with lo, returned := s.returned ++ [l] }
  | .terminateAllEvents => { s with lo := EventArray.terminateAllEvents s.lo }

end Run

/-- The calls, one after the other. -/
def run (f : Filter) (calls : List Call) : Run := calls.foldl (Run.call f) .start

/-- The events in the array. -/
def held (lo : LolArray) : List Llist := finished lo.array ++ building lo.array

/-- The array is as it should be: the counter is right and there is nothing above `maxi`; only one
event with an identity is being built; the accepted lines are the records of the events, each of which
has those with its identity in the order in which they came; and an event that is returned has the
smallest time stamp. -/
structure Sound (s : Run) : Prop where
  ready : s.lo.ready = (finished s.lo.array).length
  above : ∀ i : Nat, s.lo.maxi < i → ∀ slot, s.lo.array[i]? = some slot → slot = .empty
  one : ((building s.lo.array).map Prod.fst).Nodup
  numbered : (s.accepted.map (·.2.lineNumber)).Pairwise (· < ·)
  records : ((s.returned ++ held s.lo).flatMap Prod.snd).Perm (s.accepted.map Prod.snd)
  ordered : ∀ l ∈ s.returned ++ held s.lo, (l.2.map (l.1, ·)).Sublist s.accepted
  smallest : ∀ l lo', getReadyEvent s.lo = some (l, lo') →
    ∀ l' ∈ held s.lo, l.1.stamp ≤ l'.1.stamp

/-! ## One call -/

variable {f : Filter} {lo lo' : LolArray} {n : Nat} {line : Line}

theorem getReadyEvent_eq_some {l : Llist} (h : lo.Consistent)
    (hready : getReadyEvent lo = some (l, lo')) :
    lo'.Consistent ∧ takeReady EventId.later lo.array = some (l, lo'.array) := by
  unfold getReadyEvent at hready
  split at hready
  · cases hready
  · rename_i i l₁ lo₁ htake
    obtain ⟨hlo₁, hmaxi, hi, -, -⟩ := h.takeReady htake
    have heq := h.takeReady_eq EventId.later
    rw [htake] at heq
    split at hready
    · obtain ⟨⟩ := hready
      exact ⟨hlo₁.lastUsed (by omega), heq.symm⟩
    · obtain ⟨⟩ := hready
      exact ⟨hlo₁, heq.symm⟩

theorem getReadyEvent_eq_none (h : lo.Consistent) (hready : getReadyEvent lo = none) :
    takeReady EventId.later lo.array = none := by
  rw [← h.takeReady_eq]
  unfold getReadyEvent at hready
  split at hready
  · rename_i htake
    rw [htake]
    rfl
  · split at hready <;> cases hready

/-- What is known of the array when a record was added. -/
structure Added (lo lo' : LolArray) (e : EventId) (node : Lnode) : Prop where
  consistent : lo'.Consistent
  pending : (pending lo'.array).Perm (pending lo.array ++ [node])
  every : ∀ P Q : Llist → Prop, Every P lo.array → (∀ l, P l → Q l) → Q (e, [node]) →
    (∀ items, P (e, items) → Q (e, items ++ [node])) → Every Q lo'.array

theorem added_extend {e : EventId} {node : Lnode} (h : lo.Consistent)
    (hext : lo.extend e node = some lo') : Added lo lo' e node := by
  have heq := h.extend_some hext
  refine ⟨h.extend hext, pending_extend heq, fun P Q hP hPQ _ hstep => ?_⟩
  exact hP.extend_imp heq hPQ hstep

theorem added_append {e : EventId} {node : Lnode} (h : lo.Consistent)
    (hext : lo.extend e node = none) (sec : Int64) :
    Added lo (checkEvents (lolAppend lo e node) sec) e node := by
  have happ : (lolAppend lo e node).Consistent := h.append _ _ (h.extend_none hext)
  obtain ⟨k, hk⟩ := SlotArray.array_append arrayLimit e node lo
  have harray : (checkEvents (lolAppend lo e node) sec).array =
      check (isDone sec) (insert e node lo.array ++ List.replicate k .empty) := by
    rw [checkEvents, happ.check_eq, lolAppend, hk]
  refine ⟨happ.check _, ?_, fun P Q hP hPQ hnew _ => ?_⟩
  · rw [harray]
    refine (pending_check _ _).trans ?_
    rw [pending_append_replicate]
    exact pending_insert _ _ _
  · rw [harray]
    exact (((hP.mono hPQ).insert hnew).append_replicate k).check _

/-- What `lol_add_record` can do. -/
theorem lolAddRecord_cases (h : lo.Consistent) (f : Filter) (n : Nat) (line : Line) :
    lolAddRecord f lo n line = (lo, false) ∨
      ∃ e type, extractTimestamp f line = some (e, type) ∧
        (lolAddRecord f lo n line).2 = true ∧
        Added lo (lolAddRecord f lo n line).1 e ⟨line.buff.bytes, type, n⟩ := by
  unfold lolAddRecord
  split
  · exact .inl rfl
  · rename_i e type he
    dsimp only
    split
    · rename_i hext
      exact .inr ⟨e, type, he, rfl, added_extend h hext⟩
    · rename_i hext
      split
      · exact .inl rfl
      · exact .inr ⟨e, type, he, rfl, added_append h hext e.sec⟩

/-! ## All calls -/

/-- What every call keeps. -/
structure Inv (s : Run) : Prop where
  consistent : s.lo.Consistent
  numbered : (s.accepted.map (·.2.lineNumber)).Pairwise (· < ·)
  below : ∀ r ∈ s.accepted, r.2.lineNumber < s.lines
  records : (s.returned.flatMap Prod.snd ++ pending s.lo.array).Perm (s.accepted.map Prod.snd)
  returned : ∀ l ∈ s.returned, (l.2.map (l.1, ·)).Sublist s.accepted
  slots : Every (fun l : Llist => (l.2.map (l.1, ·)).Sublist s.accepted) s.lo.array

theorem inv_start : Inv .start where
  consistent := SlotArray.consistent_create _
  numbered := List.Pairwise.nil
  below := nofun
  records := by
    show ([] ++ pending (List.replicate arrayLimit .empty)).Perm []
    simp [pending]
  returned := nofun
  slots := Every.nil.append_replicate arrayLimit

variable {s : Run}

theorem Inv.addRecord (h : Inv s) (line : Line) : Inv (s.call f (.addRecord line)) := by
  rcases lolAddRecord_cases h.consistent f s.lines line with hsame | ⟨e, type, he, hadd, hadded⟩
  · have hcall : s.call f (.addRecord line) = { s with lines := s.lines + 1 } := by
      simp only [Run.call, hsame, Bool.false_eq_true, if_false]
    rw [hcall]
    exact ⟨h.consistent, h.numbered, fun r hr => (h.below r hr).trans (Nat.lt_succ_self _), h.records,
      h.returned, h.slots⟩
  · generalize hnode : (⟨line.buff.bytes, type, s.lines⟩ : Lnode) = node at hadded
    have hcall : s.call f (.addRecord line) = { s with
        lo := (lolAddRecord f s.lo s.lines line).1
        lines := s.lines + 1
        accepted := s.accepted ++ [(e, node)] } := by
      simp only [Run.call, hadd, he, if_true, Option.map_some, Option.toList_some, hnode]
    rw [hcall]
    have hnumber : node.lineNumber = s.lines := by rw [← hnode]
    have hgrow {l : Llist} (hl : (l.2.map (l.1, ·)).Sublist s.accepted) :
        (l.2.map (l.1, ·)).Sublist (s.accepted ++ [(e, node)]) :=
      hl.trans (sublist_append_left _ _)
    refine ⟨hadded.consistent, ?_, ?_, ?_, fun l hl => hgrow (h.returned l hl), ?_⟩
    · rw [map_append, pairwise_append]
      refine ⟨h.numbered, pairwise_singleton _ _, fun a ha b hb => ?_⟩
      obtain ⟨r, hr, rfl⟩ := mem_map.mp ha
      rw [mem_singleton.mp hb]
      exact (h.below r hr).trans_eq hnumber.symm
    · exact forall_mem_append.mpr ⟨fun r hr => (h.below r hr).trans (Nat.lt_succ_self _),
        forall_mem_singleton.mpr (hnumber.trans_lt (Nat.lt_succ_self _))⟩
    · rw [map_append]
      refine (hadded.pending.append_left _).trans ?_
      rw [← append_assoc]
      exact h.records.append_right _
    · refine hadded.every _ _ h.slots (fun l => hgrow) ?_ fun items hitems => ?_
      · exact sublist_append_right _ _
      · rw [map_append]
        exact hitems.append (.refl _)

theorem Inv.getReadyEvent (h : Inv s) : Inv (s.call f .getReadyEvent) := by
  rw [Run.call]
  split
  · exact h
  · rename_i l lo' hready
    obtain ⟨hlo', htake⟩ := getReadyEvent_eq_some h.consistent hready
    obtain ⟨hl, hslots⟩ := h.slots.takeReady htake
    refine ⟨hlo', h.numbered, h.below, ?_, fun l' hl' => ?_, hslots⟩
    · rw [flatMap_append, append_assoc]
      refine .trans (.append_left _ ?_) h.records
      simpa using pending_takeReady htake
    · exact forall_mem_append.mpr ⟨h.returned, forall_mem_singleton.mpr hl⟩ l' hl'

theorem Inv.terminateAllEvents (h : Inv s) : Inv (s.call f .terminateAllEvents) := by
  have harray : (EventArray.terminateAllEvents s.lo).array = check (fun _ _ => true) s.lo.array :=
    h.consistent.check_eq _
  refine ⟨h.consistent.check _, h.numbered, h.below, ?_, h.returned, ?_⟩
  · show (s.returned.flatMap Prod.snd ++ pending (EventArray.terminateAllEvents s.lo).array).Perm _
    rw [harray]
    exact ((pending_check _ _).append_left _).trans h.records
  · show Every _ (EventArray.terminateAllEvents s.lo).array
    rw [harray]
    exact h.slots.check _

theorem Inv.call (h : Inv s) (c : Call) : Inv (s.call f c) := by
  cases c with
  | addRecord line => exact h.addRecord line
  | getReadyEvent => exact h.getReadyEvent
  | terminateAllEvents => exact h.terminateAllEvents

theorem Inv.calls (h : Inv s) (calls : List Call) : Inv (calls.foldl (Run.call f) s) := by
  induction calls generalizing s with
  | nil => exact h
  | cons c calls ih => exact ih (h.call c)

/-- **The array of events.**  After any calls, in any order, the array is as it should be. -/
theorem sound_run_calls (f : Filter) (calls : List Call) : Sound (run f calls) := by
  have h := inv_start.calls (f := f) calls
  refine ⟨h.consistent.ready, h.consistent.above, h.consistent.nodup, h.numbered, ?_, ?_, ?_⟩
  · rw [flatMap_append, held, flatMap_append]
    exact h.records
  · intro l hl
    rcases mem_append.mp hl with hl | hl
    · exact h.returned l hl
    · rcases mem_append.mp hl with hl | hl
      · exact h.slots.finished l hl
      · exact h.slots.building l hl
  · intro l lo' hready l' hl'
    rw [EventId.stamp_le_iff]
    have htake := (getReadyEvent_eq_some h.consistent hready).2
    exact takeReady_le EventId.laterOrder htake (mem_append.mp hl').symm

/-! ## The array and the table -/

/-- A table of `Search.Lol` to which the same is done. -/
structure TableRun where
  lo : Lol
  lines : Nat
  returned : List Llist

/-- One call. -/
def TableRun.call (f : Filter) (s : TableRun) : Call → TableRun
  | .addRecord line =>
    { s with lo := (Search.lolAddRecord f s.lo s.lines line).1, lines := s.lines + 1 }
  | .getReadyEvent =>
    match Search.getReadyEvent s.lo with
    | none => s
    | some (l, lo) => { s with lo, returned := s.returned ++ [l] }
  | .terminateAllEvents => { s with lo := terminate s.lo }

/-- The table is what the array shows, and the same events were returned. -/
structure Agrees (s : Run) (t : TableRun) : Prop where
  shows : s.lo.Shows t.lo
  lines : s.lines = t.lines
  returned : s.returned = t.returned

theorem shows_lolAddRecord {t : Lol} (h : lo.Consistent) (hshows : lo.Shows t) :
    (lolAddRecord f lo n line).1.Shows (Search.lolAddRecord f t n line).1 := by
  rw [lolAddRecord, Search.lolAddRecord]
  cases extractTimestamp f line with
  | none => exact hshows
  | some r =>
    obtain ⟨e, type⟩ := r
    dsimp only
    cases hext : lo.extend e ⟨line.buff.bytes, type, n⟩ with
    | some lo' =>
      obtain ⟨t', ht', hshows'⟩ := hshows.extend_some h hext
      rw [ht']
      exact hshows'
    | none =>
      rw [hshows.extend_none h hext]
      dsimp only
      split
      · exact hshows
      · have happ := h.append arrayLimit ⟨line.buff.bytes, type, n⟩ (h.extend_none hext)
        exact (hshows.append arrayLimit e ⟨line.buff.bytes, type, n⟩).check happ _

theorem Agrees.call {t : TableRun} (h : Agrees s t) (hs : Inv s) (c : Call) :
    Agrees (s.call f c) (t.call f c) := by
  cases c with
  | addRecord line =>
    refine ⟨?_, congrArg (· + 1) h.lines, h.returned⟩
    show (lolAddRecord f s.lo s.lines line).1.Shows (Search.lolAddRecord f t.lo t.lines line).1
    rw [← h.lines]
    exact shows_lolAddRecord hs.consistent h.shows
  | terminateAllEvents => exact ⟨h.shows.check hs.consistent _, h.lines, h.returned⟩
  | getReadyEvent =>
    rw [Run.call, TableRun.call, Search.getReadyEvent]
    cases hready : EventArray.getReadyEvent s.lo with
    | none =>
      rw [h.shows.takeReady_none (getReadyEvent_eq_none hs.consistent hready)]
      exact h
    | some r =>
      obtain ⟨l, lo'⟩ := r
      obtain ⟨t', ht', hshows⟩ := h.shows.takeReady_some (getReadyEvent_eq_some hs.consistent hready).2
      rw [ht']
      exact ⟨hshows, h.lines, congrArg (· ++ [l]) h.returned⟩

/-- **The array is the table.**  The same calls return the same events. -/
theorem returned_eq (f : Filter) (calls : List Call) :
    (run f calls).returned = (calls.foldl (TableRun.call f) ⟨[], 0, []⟩).returned := by
  have hrun {s : Run} {t : TableRun} (h : Agrees s t) (hs : Inv s) :
      Agrees (calls.foldl (Run.call f) s) (calls.foldl (TableRun.call f) t) := by
    induction calls generalizing s t with
    | nil => exact h
    | cons c calls ih => exact ih (h.call hs c) (hs.call c)
  have hstart : Agrees .start ⟨[], 0, []⟩ := ⟨SlotArray.Shows.create _, rfl, rfl⟩
  exact (hrun hstart inv_start).returned

end LibAudit.Search.EventArray
