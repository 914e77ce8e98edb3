import LibAudit.Lib.SlotArray
import LibAudit.Auparse.Feed

/-!
# The array behind `auparse`

`Auparse.Feed` has the events that are put together in a table.  `auparse.c` has them in an array of
`au_lolnode`s, with `maxi` and `au_ready` (`Slots.SlotArray`).  When an event is delivered its slot is
marked as empty, but the list of its records stays there, because it is the current event: the next
call of `au_auparse_next_event` frees it.  `left` has these lists.

A `Step` is a piece of the code that runs from one use of the array to the next, so that all calls are
sequences of steps (`nextEvent_steps`).  Allocations succeed, and no number gets too large for an `int`.

The state also has what a caller sees or relies on: which events were started and delivered, and which
ones were still there when their slot got a new event (`displaced`).
-/

namespace LibAudit.Auparse.EventArray

open Records Slots Tables List Option Function EventId

/-! ## The state -/

/-- `auparse_state_t`. -/
structure State where
  auLo : SlotArray EventId Rnode
  left : Nat → Option EventList
  le : Option EventList
  lineNumber : Nat
  started : List EventId
  delivered : List EventList
  displaced : List EventList

/-- `ARRAY_LIMIT`. -/
def arrayLimit : Nat := 80

namespace State

/-- `auparse_init`. -/
def init : State := ⟨.create arrayLimit, fun _ => none, none, 0, [], [], []⟩

/-- The slot is empty and has the list of an event. -/
def toFree (s : State) (i : Nat) : Bool :=
  decide (i ≤ s.auLo.maxi) && (s.auLo.array.getD i .empty).isEmpty && (s.left i).isSome

/-- The loop of `au_auparse_next_event` that frees the events which were delivered. -/
def freeEvents (s : State) : State :=
  { s with
    left := fun i => if s.toFree i then none else s.left i
    le := if (List.range (s.auLo.maxi + 1).toNat).any s.toFree then none else s.le }

/-- The events that are in slot `i`. -/
def eventsIn (s : State) (i : Nat) : List EventList :=
  let slot := s.auLo.array.getD i .empty
  slot.building?.toList ++ slot.complete?.toList ++ (s.left i).toList

/-- `au_lol_append`, of an event with one record. -/
def auLolAppend (s : State) (e : EventId) (r : Rnode) : State :=
  let i := s.auLo.freeSlot
  { s with
    auLo := s.auLo.append arrayLimit e r
    left := update s.left i none
    started := s.started ++ [e]
    displaced := s.displaced ++ s.eventsIn i }

/-- `au_check_events`. -/
def auCheckEvents (s : State) (sec : Int64) : State := { s with auLo := s.auLo.check (isDone sec) }

/-- `au_terminate_all_events`. -/
def auTerminateAllEvents (s : State) : State := { s with auLo := s.auLo.check fun _ _ => true }

/-- `au_get_ready_event`. -/
def auGetReadyEvent (s : State) (isTest : Bool) : Option (EventList × State) :=
  let tested := if isTest && s.auLo.ready != 0 then (finished s.auLo.used).head? else none
  match tested with
  | some l => some (l, s)
  | none =>
    (s.auLo.takeReady later).map fun (i, l, auLo) =>
      (l, { s with auLo, left := update s.left i (some l) })

/-- An event is made the current one, if one is ready. -/
def deliver (s : State) : Option State :=
  (s.auGetReadyEvent false).map fun (l, s) => { s with le := some l, delivered := s.delivered ++ [l] }

/-- What `au_auparse_next_event` does with a line, and whether it goes on to deliver an event. -/
def addLine (s : State) (record junk : Bytes) : State × Bool :=
  let s := { s with lineNumber := s.lineNumber + 1 }
  match extractTimestamp record junk with
  | none => (s, false)
  | some e =>
    let r : Rnode := ⟨record, s.lineNumber⟩
    match s.auLo.extend e r with
    | some auLo => ({ s with auLo }.auCheckEvents e.sec, false)
    | none =>
      -- standalone EOE, the main event was already marked complete
      if r.type = auditEoe then (s, false)
      else ((s.auLolAppend e r).auCheckEvents e.sec, true)

/-- `auparse_reset`, as far as the events go. -/
def reset (s : State) : State :=
  { s with
    auLo := ⟨List.replicate s.auLo.array.length .empty, -1, 0⟩
    left := fun _ => none
    le := none
    lineNumber := 0 }

end State

/-! ## Steps -/

/-- What happens to the array. -/
inductive Step
  | freeEvents
  | addLine (record junk : Bytes)
  | checkEvents (sec : Int64)
  | terminateAllEvents
  | deliver
  | feedHasData
  | reset

/-- One step.  Before a line is read, the events that were delivered are freed. -/
def State.step (s : State) : Step → State
  | .freeEvents => s.freeEvents
  | .addLine record junk => (s.freeEvents.addLine record junk).1
  | .checkEvents sec => s.auCheckEvents sec
  | .terminateAllEvents => s.auTerminateAllEvents
  | .deliver => s.deliver.getD s
  | .feedHasData => ((s.auGetReadyEvent true).map Prod.snd).getD s
  | .reset => s.reset

/-- The steps, one after the other. -/
def State.steps (s : State) (steps : List Step) : State := steps.foldl State.step s

/-- What `retrieve_next_line` returns: 1 and a line, 0, -2, or -1. -/
inductive Retrieved
  | line (record junk : Bytes)
  | noData
  | eof
  | error

/-- The loop of `au_auparse_next_event`: the state and what is returned. -/
def State.ingest (s : State) : List Retrieved → State × Int
  | [] => (s.freeEvents, 0)
  | .noData :: _ => (s.freeEvents, 0)
  | .error :: _ => (s.freeEvents, -1)
  | .eof :: _ =>
    let s := s.freeEvents.auTerminateAllEvents
    match s.deliver with
    | some s => (s, 1)
    | none => (s, 0)
  | .line record junk :: rest =>
    match s.freeEvents.addLine record junk with
    | (s, false) => s.ingest rest
    | (s, true) =>
      match s.deliver with
      | some s => (s, 1)
      | none => s.ingest rest

/-- `au_auparse_next_event`, if `retrieve_next_line` returns these one after the other. -/
def State.nextEvent (s : State) (retrieved : List Retrieved) : State × Int :=
  let s := s.freeEvents
  match s.deliver with
  | some s => (s, 1)
  | none => s.ingest retrieved

/-! ## What the array should be -/

/-- The events that have not been delivered. -/
def State.held (s : State) : List EventList := finished s.auLo.array ++ building s.auLo.array

/-- The array is as it should be: the counter is right and there is nothing above `maxi`; only one
event with an identity is being built; no event had to make room for a new one; an event that is
delivered has the smallest time stamp; and if events are started in the order of their time stamps,
they are delivered in that order. -/
structure Sound (s : State) : Prop where
  ready : s.auLo.ready = (finished s.auLo.array).length
  above : ∀ i : Nat, s.auLo.maxi < i → s.eventsIn i = []
  one : ((building s.auLo.array).map Prod.fst).Nodup
  displaced : s.displaced = []
  smallest : ∀ l s', s.auGetReadyEvent false = some (l, s') →
    ∀ l' ∈ s.held, l.1.stamp ≤ l'.1.stamp
  inOrder : (s.started.Pairwise fun a b => a.stamp ≤ b.stamp) →
    s.delivered.Pairwise fun a b => a.1.stamp ≤ b.1.stamp

/-- The events that were delivered do not come after those that are in the array. -/
structure Ordered (s : State) : Prop where
  delivered : s.delivered.Pairwise fun a b => a.1.stamp ≤ b.1.stamp
  slots : ∀ d ∈ s.delivered, Every (fun l : EventList => d.1.stamp ≤ l.1.stamp) s.auLo.array

/-- What every step keeps. -/
structure Inv (s : State) : Prop where
  consistent : s.auLo.Consistent
  left : ∀ i l, s.left i = some l → i ≤ s.auLo.maxi ∧ s.auLo.array[i]? = some .empty
  current : ∀ l, s.le = some l → ∃ i, s.left i = some l
  displaced : s.displaced = []
  delivered : ∀ l ∈ s.delivered, l.1 ∈ s.started
  slots : Every (fun l : EventList => l.1 ∈ s.started) s.auLo.array
  ordered : (s.started.Pairwise fun a b => a.stamp ≤ b.stamp) → Ordered s

variable {s s' : State}

theorem inv_init : Inv .init where
  consistent := SlotArray.consistent_create _
  left := nofun
  current := nofun
  displaced := rfl
  delivered := nofun
  slots := Every.nil.append_replicate arrayLimit
  ordered _ := ⟨List.Pairwise.nil, nofun⟩

/-! ### Freeing events -/

/-- Nothing is left of the events that were delivered. -/
structure Cleared (s : State) : Prop where
  left : ∀ i, s.left i = none
  le : s.le = none

theorem Cleared.no_left {P : Nat → EventList → Prop} (h : Cleared s) (i : Nat) (l : EventList)
    (hl : s.left i = some l) : P i l := nomatch (h.left i).symm.trans hl

theorem Cleared.no_le {P : EventList → Prop} (h : Cleared s) (l : EventList)
    (hl : s.le = some l) : P l := nomatch h.le.symm.trans hl

theorem Inv.toFree (h : Inv s) {i : Nat} {l : EventList} (hl : s.left i = some l) :
    s.toFree i = true := by
  obtain ⟨hi, hslot⟩ := h.left i l hl
  simp [State.toFree, hi, hslot, hl, Slot.isEmpty]

theorem Inv.left_freeEvents (h : Inv s) (i : Nat) : s.freeEvents.left i = none := by
  show (if s.toFree i then none else s.left i) = none
  split
  · rfl
  · rename_i hfree
    cases hl : s.left i with
    | none => rfl
    | some l => exact absurd (h.toFree hl) hfree

theorem Inv.le_freeEvents (h : Inv s) : s.freeEvents.le = none := by
  show (if (List.range (s.auLo.maxi + 1).toNat).any s.toFree then none else s.le) = none
  split
  · rfl
  · rename_i hany
    cases hle : s.le with
    | none => rfl
    | some l =>
      obtain ⟨i, hl⟩ := h.current l hle
      have hi := (h.left i l hl).1
      refine absurd (any_eq_true.mpr ⟨i, mem_range.mpr ?_, h.toFree hl⟩) hany
      omega

theorem Inv.cleared_freeEvents (h : Inv s) : Cleared s.freeEvents := ⟨h.left_freeEvents, h.le_freeEvents⟩

theorem Inv.freeEvents (h : Inv s) : Inv s.freeEvents where
  __ := h
  left := h.cleared_freeEvents.no_left
  current := h.cleared_freeEvents.no_le
  ordered hsorted := ⟨(h.ordered hsorted).delivered, (h.ordered hsorted).slots⟩

/-! ### Completing and delivering events -/

theorem Inv.check (h : Inv s) (done : EventId → List Rnode → Bool) :
    Inv { s with auLo := s.auLo.check done } := by
  have harray : (s.auLo.check done).array = Slots.check done s.auLo.array := h.consistent.check_eq done
  refine ⟨h.consistent.check done, fun i l hl => ?_, h.current, h.displaced, h.delivered, ?_,
    fun hsorted => ⟨(h.ordered hsorted).delivered, fun d hd => ?_⟩⟩
  · obtain ⟨hi, hslot⟩ := h.left i l hl
    refine ⟨hi, ?_⟩
    rw [harray, Slots.check, List.getElem?_map, hslot]
    rfl
  · rw [harray]
    exact h.slots.check done
  · rw [harray]
    exact ((h.ordered hsorted).slots d hd).check done

theorem auGetReadyEvent_eq_some {l : EventList} (h : s.auLo.Consistent)
    (hready : s.auGetReadyEvent false = some (l, s')) :
    takeReady later s.auLo.array = some (l, s'.auLo.array) ∧
      ∃ i auLo, s.auLo.takeReady later = some (i, l, auLo) ∧
        s' = { s with auLo, left := update s.left i (some l) } := by
  obtain ⟨⟨i, l', auLo⟩, htake, hs'⟩ := map_eq_some_iff.mp hready
  obtain ⟨⟩ := hs'
  have heq := h.takeReady_eq later
  rw [htake] at heq
  exact ⟨heq.symm, i, auLo, htake, rfl⟩

theorem smallest_of_auGetReadyEvent {l : EventList} (h : s.auLo.Consistent)
    (hready : s.auGetReadyEvent false = some (l, s')) :
    Every (fun l' : EventList => l.1.stamp ≤ l'.1.stamp) s.auLo.array := by
  have htake := (auGetReadyEvent_eq_some h hready).1
  refine ⟨fun l' hl' => ?_, fun l' hl' => ?_⟩
  · exact stamp_le_iff.mpr (takeReady_le laterOrder htake (.inl hl'))
  · exact stamp_le_iff.mpr (takeReady_le laterOrder htake (.inr hl'))

theorem Inv.deliver (h : Inv s) (hs' : s.deliver = some s') : Inv s' := by
  obtain ⟨⟨l, s₁⟩, hready, hs'⟩ := map_eq_some_iff.mp hs'
  have hsmallest := smallest_of_auGetReadyEvent h.consistent hready
  obtain ⟨htable, i, auLo, htake, rfl⟩ := auGetReadyEvent_eq_some h.consistent hready
  obtain ⟨hcons, hmaxi, hi, hset, hslot⟩ := h.consistent.takeReady htake
  subst hs'
  have hlen := (List.getElem?_eq_some_iff.mp hslot).1
  obtain ⟨hl, hslots⟩ := h.slots.takeReady htable
  refine ⟨hcons, fun j l' hl' => ?_, fun l' hl' => ⟨i, ?_⟩, h.displaced, fun l' hl' => ?_, hslots,
    fun hsorted => ⟨?_, fun d hd => ?_⟩⟩
  · -- slot `i` is empty now, and so are the others that were empty before
    rw [hmaxi, hset]
    by_cases hj : j = i
    · subst hj
      exact ⟨hi, List.getElem?_set_self hlen⟩
    · have hold : s.left j = some l' := (update_of_ne hj _ _).symm.trans hl'
      obtain ⟨hj', hempty⟩ := h.left j l' hold
      exact ⟨hj', (List.getElem?_set_ne (Ne.symm hj)).trans hempty⟩
  · obtain ⟨⟩ := hl'
    exact update_self _ _ _
  · exact forall_mem_append.mpr ⟨h.delivered, forall_mem_singleton.mpr hl⟩ l' hl'
  · have hold := h.ordered hsorted
    refine pairwise_append.mpr ⟨hold.delivered, pairwise_singleton _ _, ?_⟩
    intro a ha b hb
    rw [mem_singleton.mp hb]
    exact ((hold.slots a ha).takeReady htable).1
  · exact forall_mem_append.mpr ⟨fun d hd => (((h.ordered hsorted).slots d hd).takeReady htable).2,
      forall_mem_singleton.mpr (hsmallest.takeReady htable).2⟩ d hd

theorem auGetReadyEvent_test (h : s.auLo.Consistent) :
    ((s.auGetReadyEvent true).map Prod.snd).getD s = s := by
  unfold State.auGetReadyEvent
  by_cases hzero : s.auLo.ready = 0
  · simp [hzero, SlotArray.takeReady]
  · have hfin : finished s.auLo.used ≠ [] := by
      intro hnil
      rw [h.ready, ← h.finished_used, hnil] at hzero
      exact hzero rfl
    cases hhead : (finished s.auLo.used).head? with
    | none => exact absurd (List.head?_eq_none_iff.mp hhead) hfin
    | some l => simp [hzero]

/-! ### Lines -/

theorem Inv.extend {e : EventId} {r : Rnode} {auLo : SlotArray EventId Rnode} (h : Inv s)
    (hc : Cleared s) (hext : s.auLo.extend e r = some auLo) : Inv { s with auLo } := by
  have harray := h.consistent.extend_some hext
  refine ⟨h.consistent.extend hext, hc.no_left, hc.no_le, h.displaced, h.delivered, ?_, fun hsorted =>
    ⟨(h.ordered hsorted).delivered, fun d hd => ?_⟩⟩
  · exact h.slots.extend harray fun _ hl => hl
  · exact ((h.ordered hsorted).slots d hd).extend harray fun _ hl => hl

/-- The slot of a new event is empty. -/
theorem getD_freeSlot (a : SlotArray EventId Rnode) : a.array.getD a.freeSlot .empty = .empty := by
  rw [getD_eq_getElem?_getD]
  cases hslot : a.array[a.freeSlot]? with
  | none => rfl
  | some slot =>
    obtain ⟨hlt, rfl⟩ := List.getElem?_eq_some_iff.mp hslot
    have hempty : a.array[a.freeSlot].isEmpty = true := findIdx_getElem
    rw [getD_some]
    generalize a.array[a.freeSlot] = slot at hempty ⊢
    cases slot with
    | empty => rfl
    | building key items => cases hempty
    | complete key items => cases hempty

theorem Inv.auLolAppend {e : EventId} {r : Rnode} (h : Inv s) (hc : Cleared s)
    (hext : s.auLo.extend e r = none) : Inv (s.auLolAppend e r) := by
  obtain ⟨k, hk⟩ := SlotArray.array_append arrayLimit e r s.auLo
  refine ⟨h.consistent.append arrayLimit r (h.consistent.extend_none hext), fun i l hl => ?_,
    hc.no_le, ?_, fun l hl => mem_append_left _ (h.delivered l hl), ?_, fun hsorted => ?_⟩
  · have hnone : (s.auLolAppend e r).left i = none := by
      show update s.left s.auLo.freeSlot none i = none
      by_cases hi : i = s.auLo.freeSlot
      · rw [hi, update_self]
      · rw [update_of_ne hi, hc.left]
    cases (hnone.symm.trans hl)
  · show s.displaced ++ s.eventsIn s.auLo.freeSlot = []
    rw [h.displaced, State.eventsIn, getD_freeSlot, hc.left]
    rfl
  · show Every _ (s.auLo.append arrayLimit e r).array
    rw [hk]
    refine Every.append_replicate (Every.insert ?_ ?_) k
    · exact h.slots.mono fun l hl => mem_append_left _ hl
    · exact mem_append_right _ mem_cons_self
  · -- the new event is not before any that was started
    obtain ⟨hold, -, hnew⟩ := pairwise_append.mp hsorted
    refine ⟨(h.ordered hold).delivered, fun d hd => ?_⟩
    show Every _ (s.auLo.append arrayLimit e r).array
    rw [hk]
    refine Every.append_replicate (((h.ordered hold).slots d hd).insert ?_) k
    exact hnew d.1 (h.delivered d hd) e mem_cons_self

theorem Inv.addLine (h : Inv s) (hc : Cleared s) (record junk : Bytes) :
    Inv (s.addLine record junk).1 := by
  have h₁ : Inv { s with lineNumber := s.lineNumber + 1 } :=
    { h with ordered := fun hsorted => ⟨(h.ordered hsorted).delivered, (h.ordered hsorted).slots⟩ }
  have hc₁ : Cleared { s with lineNumber := s.lineNumber + 1 } := { hc with }
  unfold State.addLine
  dsimp only
  split
  · exact h₁
  · split
    · rename_i auLo hext
      exact (h₁.extend hc₁ hext).check _
    · rename_i hext
      split
      · exact h₁
      · exact (h₁.auLolAppend hc₁ hext).check _

theorem Inv.reset (h : Inv s) : Inv s.reset where
  __ := h
  consistent := SlotArray.consistent_create _
  left := nofun
  current := nofun
  slots := Every.nil.append_replicate _
  ordered hsorted := ⟨(h.ordered hsorted).delivered, fun _ _ => Every.nil.append_replicate _⟩

theorem Inv.step (h : Inv s) (step : Step) : Inv (s.step step) := by
  cases step with
  | freeEvents => exact h.freeEvents
  | addLine record junk => exact h.freeEvents.addLine h.cleared_freeEvents record junk
  | checkEvents sec => exact h.check _
  | terminateAllEvents => exact h.check _
  | feedHasData =>
    rw [State.step, auGetReadyEvent_test h.consistent]
    exact h
  | reset => exact h.reset
  | deliver =>
    rw [State.step]
    cases hs' : s.deliver with
    | none => exact h
    | some s' => exact h.deliver hs'

theorem Inv.steps (h : Inv s) (steps : List Step) : Inv (s.steps steps) := by
  induction steps generalizing s with
  | nil => exact h
  | cons step steps ih => exact ih (h.step step)

/-- **The array of events.**  After any steps, in any order, the array is as it should be. -/
theorem sound_steps (steps : List Step) : Sound (State.init.steps steps) := by
  have h := inv_init.steps steps
  generalize State.init.steps steps = s at h
  refine ⟨h.consistent.ready, fun i hi => ?_, h.consistent.nodup, h.displaced, ?_, fun hsorted =>
    (h.ordered hsorted).delivered⟩
  · have hleft : s.left i = none := by
      cases hl : s.left i with
      | none => rfl
      | some l => exact absurd (h.left i l hl).1 (by omega)
    have hslot : s.auLo.array.getD i .empty = .empty := by
      rw [getD_eq_getElem?_getD]
      cases hs : s.auLo.array[i]? with
      | none => rfl
      | some slot => exact h.consistent.above i hi slot hs
    rw [State.eventsIn, hslot, hleft]
    rfl
  · intro l s' hready l' hl'
    have hsmallest := smallest_of_auGetReadyEvent h.consistent hready
    rcases mem_append.mp hl' with hl' | hl'
    · exact hsmallest.finished l' hl'
    · exact hsmallest.building l' hl'

/-! ### A record that comes late

The time stamps of the events that are started matter, and not only where an identity appears for the
first time.  If a record comes when its event is complete, another event with the same identity is
started. -/

/-- The identity of the record, if the step reads one. -/
def Step.identity? : Step → Option EventId
  | .addLine record junk => extractTimestamp record junk
  | _ => none

/-- All identities, each where it appears for the first time. -/
def firstSeen (steps : List Step) : List EventId := (steps.filterMap Step.identity?).eraseDups

/-- Three records that are events of their own.  The last one has the identity of the first. -/
def lateRecord : List Step :=
  [.addLine (ascii "type=USER msg=audit(1.0:1): a=1") [], .deliver,
   .addLine (ascii "type=USER msg=audit(5.0:2): a=2") [], .deliver,
   .addLine (ascii "type=USER msg=audit(1.0:1): a=3") [], .deliver]

/-- A record that comes late makes an event of its own. -/
theorem lateRecord_not_inOrder : ((firstSeen lateRecord).Pairwise fun a b => a.stamp ≤ b.stamp) ∧
      ¬ (State.init.steps lateRecord).delivered.Pairwise fun a b => a.1.stamp ≤ b.1.stamp := by
  have hseen : firstSeen lateRecord = [⟨1, 0, 1, none⟩, ⟨5, 0, 2, none⟩] := by decide +kernel
  have hdelivered : (State.init.steps lateRecord).delivered.map Prod.fst =
      [⟨1, 0, 1, none⟩, ⟨5, 0, 2, none⟩, ⟨1, 0, 1, none⟩] := by decide +kernel
  constructor
  · rw [hseen]
    simp [stamp_le_iff]
    decide
  · intro hsorted
    have hkeys : ((State.init.steps lateRecord).delivered.map Prod.fst).Pairwise
        fun a b => a.stamp ≤ b.stamp := pairwise_map.mpr hsorted
    rw [hdelivered] at hkeys
    have hback := rel_of_pairwise_cons (pairwise_cons.mp hkeys).2 mem_cons_self
    exact absurd (stamp_le_iff.mp hback) (by decide)

/-! ## Calls -/

theorem State.steps_append (s : State) (a b : List Step) : s.steps (a ++ b) = (s.steps a).steps b :=
  foldl_append

theorem State.step_deliver (hs' : s.deliver = some s') : s.step .deliver = s' := by
  rw [State.step, hs']
  rfl

theorem State.ingest_steps (s : State) (retrieved : List Retrieved) :
    ∃ steps, (s.ingest retrieved).1 = s.steps steps := by
  induction retrieved generalizing s with
  | nil => exact ⟨[.freeEvents], rfl⟩
  | cons r rest ih =>
    cases r with
    | noData => exact ⟨[.freeEvents], rfl⟩
    | error => exact ⟨[.freeEvents], rfl⟩
    | eof =>
      rw [ingest]
      split
      · rename_i s' hs'
        exact ⟨[.freeEvents, .terminateAllEvents, .deliver], (step_deliver hs').symm⟩
      · exact ⟨[.freeEvents, .terminateAllEvents], rfl⟩
    | line record junk =>
      have hline : s.steps [.addLine record junk] = (s.freeEvents.addLine record junk).1 := rfl
      rw [ingest]
      split
      · rename_i s₁ hadd
        obtain ⟨steps, hsteps⟩ := ih s₁
        refine ⟨.addLine record junk :: steps, ?_⟩
        rw [hsteps, ← singleton_append, steps_append, hline, hadd]
      · rename_i s₁ hadd
        rw [hadd] at hline
        split
        · rename_i s₂ hs₂
          refine ⟨[.addLine record junk, .deliver], ?_⟩
          rw [← singleton_append, steps_append, hline]
          exact (step_deliver hs₂).symm
        · obtain ⟨steps, hsteps⟩ := ih s₁
          refine ⟨.addLine record junk :: steps, ?_⟩
          rw [hsteps, ← singleton_append, steps_append, hline]

/-- **Calls are steps.**  Whatever `retrieve_next_line` returns, `au_auparse_next_event` takes the array
through a sequence of steps. -/
theorem nextEvent_steps (s : State) (retrieved : List Retrieved) :
    ∃ steps, (s.nextEvent retrieved).1 = s.steps steps := by
  rw [State.nextEvent]
  split
  · rename_i s' hs'
    exact ⟨[.freeEvents, .deliver], (State.step_deliver hs').symm⟩
  · obtain ⟨steps, hsteps⟩ := s.freeEvents.ingest_steps retrieved
    exact ⟨.freeEvents :: steps, hsteps⟩

/-- **The invariant holds after any calls** of `au_auparse_next_event`, whatever they read. -/
theorem inv_nextEvents (calls : List (List Retrieved)) :
    Inv (calls.foldl (fun s retrieved => (s.nextEvent retrieved).1) .init) := by
  refine foldlRecOn calls _ inv_init fun s h retrieved _ => ?_
  obtain ⟨steps, hsteps⟩ := nextEvent_steps s retrieved
  rw [hsteps]
  exact h.steps steps

/-! ## The array and the table -/

/-- A line that is read, and the event that is delivered then if one is ready. -/
def State.ingestLine (s : State) (record junk : Bytes) : State :=
  match s.addLine record junk with
  | (s, true) => s.deliver.getD s
  | (s, false) => s

/-- What is done to the events that are put together, one thing after the other. -/
inductive Piece
  | line (record : Bytes)
  | deliver
  | terminateAllEvents

/-- What is done to the array.  Before a line is read or an event is looked for, those that were
delivered are freed. -/
def State.piece (junk : Nat → Bytes) (s : State) : Piece → State
  | .line record => s.freeEvents.ingestLine record (junk (s.lineNumber + 1))
  | .deliver => s.freeEvents.deliver.getD s.freeEvents
  | .terminateAllEvents => s.auTerminateAllEvents

/-- What is done to the table of `Feed`. -/
def tablePiece (au : Feed) : Piece → Feed
  | .line record =>
    let (au', l) := au.ingest ⟨record, au.lineNumber + 1⟩
    { au' with lineNumber := au.lineNumber + 1, delivered := au.delivered ++ l.toList }
  | .deliver =>
    match takeReady later au.auLo with
    | none => au
    | some (l, auLo) => { au with auLo, delivered := au.delivered ++ [l] }
  | .terminateAllEvents => { au with auLo := terminate au.auLo }

/-- The array shows the table, and the same events were delivered. -/
structure Agrees (junk : Nat → Bytes) (s : State) (au : Feed) : Prop where
  inv : Inv s
  shows : s.auLo.Shows au.auLo
  lineNumber : s.lineNumber = au.lineNumber
  junk : au.junk = junk
  delivered : s.delivered = au.delivered

namespace Agrees

variable {junk : Nat → Bytes} {au : Feed}

theorem deliver (h : Agrees junk s au) : Agrees junk (s.deliver.getD s) (tablePiece au .deliver) := by
  have heq := h.inv.consistent.takeReady_eq later
  cases hready : s.auGetReadyEvent false with
  | none =>
    rw [map_eq_none_iff.mp hready] at heq
    rw [tablePiece, h.shows.takeReady_none heq.symm, State.deliver, hready]
    exact h
  | some r =>
    obtain ⟨l, s₁⟩ := r
    have hs : s.deliver = some { s₁ with le := some l, delivered := s₁.delivered ++ [l] } := by
      rw [State.deliver, hready]
      rfl
    have hinv := h.inv.deliver hs
    obtain ⟨htable, i, auLo, -, rfl⟩ := auGetReadyEvent_eq_some h.inv.consistent hready
    obtain ⟨t', ht', hshows⟩ := h.shows.takeReady_some htable
    rw [tablePiece, ht', hs]
    exact ⟨hinv, hshows, h.lineNumber, h.junk, congrArg (· ++ [l]) h.delivered⟩

theorem shows_ingestLine (h : Agrees junk s au) (hc : Cleared s) (record : Bytes) :
    Agrees junk (s.ingestLine record (junk (s.lineNumber + 1))) (tablePiece au (.line record)) := by
  obtain rfl := h.junk
  have hinv := h.inv.addLine hc record (au.junk (s.lineNumber + 1))
  have hnil : s.delivered = au.delivered ++ [] := by rw [append_nil, h.delivered]
  simp only [State.ingestLine, State.addLine, tablePiece, Feed.ingest, ← h.lineNumber] at hinv ⊢
  cases hts : extractTimestamp record (au.junk (s.lineNumber + 1)) with
  | none =>
    rw [hts] at hinv
    exact ⟨hinv, h.shows, rfl, rfl, hnil⟩
  | some e =>
    rw [hts] at hinv
    dsimp only at hinv ⊢
    cases hext : s.auLo.extend e ⟨record, s.lineNumber + 1⟩ with
    | some auLo =>
      obtain ⟨t', ht', hshows⟩ := h.shows.extend_some h.inv.consistent hext
      rw [hext] at hinv
      rw [ht']
      exact ⟨hinv, hshows.check (h.inv.consistent.extend hext) _, rfl, rfl, hnil⟩
    | none =>
      rw [hext] at hinv
      rw [h.shows.extend_none h.inv.consistent hext]
      by_cases heoe : (⟨record, s.lineNumber + 1⟩ : Rnode).type = auditEoe
      · simp only [if_pos heoe] at hinv ⊢
        exact ⟨hinv, h.shows, rfl, rfl, hnil⟩
      · simp only [if_neg heoe] at hinv ⊢
        have happ := h.inv.consistent.append arrayLimit ⟨record, s.lineNumber + 1⟩
          (h.inv.consistent.extend_none hext)
        have hnew := (h.shows.append arrayLimit e ⟨record, s.lineNumber + 1⟩).check happ (isDone e.sec)
        generalize check (isDone e.sec) (insert e _ au.auLo) = t at hnew ⊢
        have hagrees : Agrees au.junk _ { au with auLo := t, lineNumber := s.lineNumber + 1 } :=
          ⟨hinv, hnew, rfl, rfl, h.delivered⟩
        have hdeliver := hagrees.deliver
        simp only [tablePiece] at hdeliver
        grind

theorem piece (h : Agrees junk s au) (p : Piece) : Agrees junk (s.piece junk p) (tablePiece au p) := by
  have hfree : Agrees junk s.freeEvents au := { h with inv := h.inv.freeEvents }
  cases p with
  | line record => exact hfree.shows_ingestLine h.inv.cleared_freeEvents record
  | deliver => exact hfree.deliver
  | terminateAllEvents =>
    exact ⟨h.inv.check _, h.shows.check h.inv.consistent _, h.lineNumber, h.junk, h.delivered⟩

end Agrees

/-- **The array is the table.**  Whatever is read and looked for, the events that are delivered from the
array are those that are delivered from the table of `Feed`. -/
theorem delivered_pieces (junk : Nat → Bytes) (pieces : List Piece) :
    (pieces.foldl (State.piece junk) .init).delivered =
      (pieces.foldl tablePiece (Feed.init junk)).delivered := by
  have hrun {s : State} {au : Feed} (h : Agrees junk s au) :
      Agrees junk (pieces.foldl (State.piece junk) s) (pieces.foldl tablePiece au) := by
    induction pieces generalizing s au with
    | nil => exact h
    | cons p pieces ih => exact ih (h.piece p)
  have hstart : Agrees junk .init (Feed.init junk) := ⟨inv_init, SlotArray.Shows.create _, rfl, rfl, rfl⟩
  exact (hrun hstart).delivered

end LibAudit.Auparse.EventArray
