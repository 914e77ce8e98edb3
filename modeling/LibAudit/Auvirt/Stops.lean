import LibAudit.Auvirt.Events
import Mathlib.Data.List.TakeDrop

/-!
# What the stop of a guest ends

A successful stop ends the latest start of the guest that is not over, together with the resources that
were assigned to the guest since its session began.  The session begins behind the last start, stop or
machine-id record of the guest before that start.  A failed stop ends nothing.

`add_stop_guest_event` ends resources while it is still looking for the start, whatever the stop's result
is; and it gives up at a stop, at a machine-id record and at a start that is over.
-/

namespace LibAudit.Auvirt

open List Event

/-! ## What is meant to happen -/

/-- An event at which a session of the guest begins or ends. -/
def marks (uuid : Bytes) (e : Event) : Bool :=
  e.IsOf uuid ∧ (e.type = .start ∨ e.type = .stop ∨ e.type = .machineId)

/-- A start of the guest that is not over. -/
def unended (uuid : Bytes) (e : Event) : Bool := e.IsOf uuid ∧ e.type = .start ∧ e.stop = 0

/-- The open resources up to the last mark are ended, in a list with the latest event first. -/
def closeNewer (uuid : Bytes) (time : Int) (l : List Event) : List Event :=
  (l.takeWhile (!marks uuid ·)).map (close uuid time) ++ l.dropWhile (!marks uuid ·)

/-- What a successful stop ends, in a list with the latest event first. -/
def endSession (uuid : Bytes) (time : Int) (l : List Event) : List Event :=
  match l.dropWhile (!unended uuid ·) with
  | [] => l
  | s :: older =>
    (l.takeWhile (!unended uuid ·)).map (close uuid time) ++
      { s with stop := time } :: closeNewer uuid time older

/-- The events after a stop, as described. -/
def describedStop (v : Virt) (events : List Event) : List Event :=
  if v.success then (endSession v.uuid v.time events.reverse).reverse else events

/-- The events whose resources are ended by the loop, in a list with the latest event first: those up to
the last mark, and if that is a start that is not over those up to the mark before. -/
def walked (uuid : Bytes) (l : List Event) : List Event :=
  l.takeWhile (!marks uuid ·) ++
    match l.dropWhile (!marks uuid ·) with
    | [] => []
    | s :: older => if unended uuid s then older.takeWhile (!marks uuid ·) else []

/-- The last mark is a start that is not over. -/
def runs (uuid : Bytes) (l : List Event) : Bool := (l.find? (marks uuid)).any (unended uuid)

/-! ## What the loop does -/

variable {uuid : Bytes} {time : Int}

variable {l older : List Event} {e s : Event}

theorem close_of_not_isOpen (h : ¬ e.IsOpen uuid) : e.close uuid time = e := if_neg h

theorem marks_of_unended {e : Event} (h : unended uuid e = true) : marks uuid e = true :=
  decide_eq_true ⟨(of_decide_eq_true h).1, .inl (of_decide_eq_true h).2.1⟩

/-- An event that is no mark is passed. -/
theorem stopWalk_cons_of_not_marks (h : marks uuid e = false) (i : Nat) (start : Option Nat)
    (older : List Event) :
    stopWalk uuid time i start (e :: older) =
      (stopWalk uuid time (i + 1) start older).map (e.close uuid time :: ·) id := by
  rw [stopWalk]
  split
  · next hof => rw [close_of_not_isOpen fun ho => hof ho.1]
  · next hof =>
    have hno := of_decide_eq_false h
    simp_all

theorem stopWalk_cons_of_marks (h : marks uuid e = true) {i : Nat} {start : Option Nat}
    (hold : start.isSome = true ∨ unended uuid e = false) (older : List Event) :
    stopWalk uuid time i start (e :: older) = (e :: older, start) := by
  obtain ⟨hof, htype⟩ := of_decide_eq_true h
  rw [stopWalk, if_neg (not_not.mpr hof)]
  split
  · next ht =>
    refine if_pos (hold.symm.imp_left fun hun hstop => ?_)
    exact of_decide_eq_false hun ⟨hof, ht, hstop⟩
  · rfl
  · rfl
  · simp_all

theorem stopWalk_some (j : Nat) (l : List Event) (i : Nat) :
    stopWalk uuid time i (some j) l = (closeNewer uuid time l, some j) := by
  induction l generalizing i with
  | nil => rfl
  | cons e older ih =>
    cases hm : marks uuid e with
    | true => rw [stopWalk_cons_of_marks hm (.inl rfl)]; simp [closeNewer, hm]
    | false => rw [stopWalk_cons_of_not_marks hm, ih]; simp [closeNewer, hm]

/-- The start that is looked for is noted. -/
theorem stopWalk_cons_of_unended (h : unended uuid e = true) (i : Nat) (older : List Event) :
    stopWalk uuid time i none (e :: older) = (e :: closeNewer uuid time older, some i) := by
  obtain ⟨hof, htype, hstop⟩ := of_decide_eq_true h
  rw [stopWalk, if_neg (not_not.mpr hof), htype]
  simp [hstop, stopWalk_some]

/-- Events that are no marks are passed. -/
theorem stopWalk_append {newer : List Event} (h : ∀ e ∈ newer, marks uuid e = false) (rest : List Event)
    (i : Nat) (start : Option Nat) :
    stopWalk uuid time i start (newer ++ rest) =
      (stopWalk uuid time (i + newer.length) start rest).map
        (newer.map (close uuid time) ++ ·) id := by
  induction newer generalizing i with
  | nil => rfl
  | cons e newer ih =>
    rw [cons_append, stopWalk_cons_of_not_marks (h e mem_cons_self),
      ih fun e he => h e (mem_cons_of_mem _ he), Nat.add_right_comm]
    rfl

theorem length_closeNewer (l : List Event) : (closeNewer uuid time l).length = l.length := by
  rw [closeNewer, length_append, length_map, ← length_append, takeWhile_append_dropWhile]

theorem close_eq_self_iff : e.close uuid time = e ↔ time = 0 ∨ ¬ e.IsOpen uuid := by
  by_cases ho : e.IsOpen uuid
  · rw [close, if_pos ho, ← ho.2.2]
    refine ⟨fun h => .inl (congrArg stop h), fun h => ?_⟩
    rw [h.resolve_right (not_not.mpr ho)]
  · simp [close_of_not_isOpen ho, ho]

theorem map_close_eq_self_iff : l.map (close uuid time) = l ↔ time = 0 ∨ ∀ e ∈ l, ¬ e.IsOpen uuid := by
  have hid : l.map (close uuid time) = l.map id ↔ _ := map_inj_left
  rw [map_id] at hid
  simp only [hid, close_eq_self_iff, id_eq]
  by_cases h0 : time = 0 <;> simp [h0]

/-! ## The two compared -/

theorem not_marks_of_mem_takeWhile (l : List Event) :
    ∀ e ∈ l.takeWhile (!marks uuid ·), marks uuid e = false :=
  fun _ he => by simpa using mem_takeWhile_imp he

/-- Where the loop comes to a mark. -/
theorem runs_eq (l : List Event) :
    runs uuid l = (l.dropWhile (!marks uuid ·)).head?.any (unended uuid) := by
  rw [runs, find?_eq_head?_dropWhile_not]

/-- If the last mark is a start that is not over, the loop finds it. -/
theorem stopWalk_of_runs (hl : l.dropWhile (!marks uuid ·) = s :: older) (hs : unended uuid s = true) :
    stopWalk uuid time 0 none l =
      ((l.takeWhile (!marks uuid ·)).map (close uuid time) ++ s :: closeNewer uuid time older,
        some (l.takeWhile (!marks uuid ·)).length) := by
  have hwalk := @stopWalk_append uuid time _ (not_marks_of_mem_takeWhile l) (s :: older) 0 none
  rw [← hl, takeWhile_append_dropWhile, hl, stopWalk_cons_of_unended hs, Nat.zero_add] at hwalk
  exact hwalk

/-- If it is not, the loop finds nothing. -/
theorem stopWalk_of_not_runs (h : runs uuid l = false) :
    stopWalk uuid time 0 none l = (closeNewer uuid time l, none) := by
  have hwalk := @stopWalk_append uuid time _ (not_marks_of_mem_takeWhile l)
    (l.dropWhile (!marks uuid ·)) 0 none
  rw [takeWhile_append_dropWhile] at hwalk
  rw [hwalk, closeNewer]
  cases hl : l.dropWhile (!marks uuid ·) with
  | nil => rfl
  | cons m older =>
    have hm : marks uuid m = true := by simpa [hl] using @head?_dropWhile_not _ (!marks uuid ·) l
    have hover : unended uuid m = false := by simpa [runs_eq, hl] using h
    rw [stopWalk_cons_of_marks hm (.inr hover)]
    rfl

theorem closeNewer_eq_self_iff :
    closeNewer uuid time l = l ↔ time = 0 ∨ ∀ e ∈ l.takeWhile (!marks uuid ·), ¬ e.IsOpen uuid := by
  rw [← map_close_eq_self_iff, closeNewer]
  nth_rewrite 3 [← @takeWhile_append_dropWhile _ (!marks uuid ·) l]
  exact append_left_inj _

theorem walked_of_not_runs (h : runs uuid l = false) : walked uuid l = l.takeWhile (!marks uuid ·) := by
  rw [runs_eq] at h
  rw [walked]
  cases hl : l.dropWhile (!marks uuid ·) with
  | nil => simp
  | cons m older => simp_all

theorem modify_length_append (f : Event → Event) (newer older : List Event) (s : Event) :
    (newer ++ s :: older).modify newer.length f = newer ++ f s :: older := by
  induction newer with
  | nil => rfl
  | cons e newer ih =>
    rw [cons_append, length_cons, modify_succ_cons, ih, cons_append]

theorem take_addStop_of_runs {v : Virt} {events : List Event}
    (hl : events.reverse.dropWhile (!marks v.uuid ·) = s :: older) (hs : unended v.uuid s = true)
    (vmPid : Option Int) :
    ((addStopGuestEvent v vmPid events).take events.length).reverse =
      (events.reverse.takeWhile (!marks v.uuid ·)).map (close v.uuid v.time) ++
        (if v.success then { s with stop := v.time } else s) :: closeNewer v.uuid v.time older := by
  have hlen := congrArg List.length (@takeWhile_append_dropWhile _ (!marks v.uuid ·) events.reverse)
  rw [hl, length_append, length_cons, length_reverse] at hlen
  rw [addStopGuestEvent, stopWalk_of_runs hl hs]
  have hmodify := modify_length_append ({ · with stop := v.time })
    ((events.reverse.takeWhile (!marks v.uuid ·)).map (close v.uuid v.time))
    (closeNewer v.uuid v.time older) s
  rw [length_map] at hmodify
  simp only [hmodify]
  rw [take_left', reverse_reverse]
  · split <;> rfl
  · split <;> simp only [length_reverse, length_append, length_map, length_cons,
      length_closeNewer] <;> omega

theorem take_addStop_of_not_runs {v : Virt} {events : List Event}
    (h : runs v.uuid events.reverse = false) (vmPid : Option Int) :
    ((addStopGuestEvent v vmPid events).take events.length).reverse =
      closeNewer v.uuid v.time events.reverse := by
  rw [addStopGuestEvent, stopWalk_of_not_runs h]
  simp [take_of_length_le, reverse_reverse, length_reverse, length_closeNewer]

theorem endSession_of_runs (hl : l.dropWhile (!marks uuid ·) = s :: older) (hs : unended uuid s = true) :
    endSession uuid time l =
      (l.takeWhile (!marks uuid ·)).map (close uuid time) ++
        { s with stop := time } :: closeNewer uuid time older := by
  have hnewer : ∀ e ∈ l.takeWhile (!marks uuid ·), (!unended uuid e) = true := by
    intro e he
    have hm := not_marks_of_mem_takeWhile l e he
    cases hu : unended uuid e with
    | false => rfl
    | true => exact absurd (marks_of_unended hu) (by simp [hm])
  have hsplit := @takeWhile_append_dropWhile _ (!marks uuid ·) l
  rw [hl] at hsplit
  have htake := @takeWhile_append_of_pos _ (!unended uuid ·) _ (s :: older) hnewer
  have hdrop := @dropWhile_append_of_pos _ (!unended uuid ·) _ (s :: older) hnewer
  rw [hsplit] at htake hdrop
  rw [endSession, htake, hdrop]
  simp [hs]

theorem unended_of_dropWhile
    (hl : l.dropWhile (!unended uuid ·) = s :: older) : unended uuid s = true := by
  simpa [hl] using @head?_dropWhile_not _ (!unended uuid ·) l

/-- With no time nothing is ended. -/
theorem endSession_zero (l : List Event) : endSession uuid 0 l = l := by
  rw [endSession]
  split
  · rfl
  · next s older hl =>
    have hs := (of_decide_eq_true (unended_of_dropWhile hl)).2.2
    rw [map_close_eq_self_iff.mpr (.inl rfl), closeNewer_eq_self_iff.mpr (.inl rfl), ← hs]
    exact hl ▸ takeWhile_append_dropWhile

/-- A mark stays as it is. -/
theorem closeNewer_getElem? {e : Event} (he : marks uuid e = true) {l : List Event} {k : Nat}
    (hk : l[k]? = some e) : (closeNewer uuid time l)[k]? = some e := by
  induction l generalizing k with
  | nil => cases hk
  | cons a l ih =>
    cases hm : marks uuid a with
    | true => simpa [closeNewer, hm] using hk
    | false =>
      have hcons : closeNewer uuid time (a :: l) = a.close uuid time :: closeNewer uuid time l := by
        simp [closeNewer, hm]
      rw [hcons]
      cases k with
      | zero =>
        simp_all
      | succ k => exact ih hk

/-- A start that is not over, but lies behind another mark, is not ended. -/
theorem closeNewer_eq_endSession_iff {l : List Event} : closeNewer uuid time l = endSession uuid time l ↔
      time = 0 ∨ (∀ e ∈ l, unended uuid e = false) ∧
        ∀ e ∈ l.takeWhile (!marks uuid ·), ¬ e.IsOpen uuid := by
  by_cases h0 : time = 0
  · subst h0
    simp [endSession_zero, closeNewer_eq_self_iff]
  cases hl : l.dropWhile (!unended uuid ·) with
  | nil =>
    have hno : ∀ e ∈ l, unended uuid e = false := by simpa using hl
    rw [endSession, hl]
    simp only [closeNewer_eq_self_iff, h0, false_or]
    exact (and_iff_right hno).symm
  | cons s older =>
    have hs := unended_of_dropWhile hl
    have hsplit := @takeWhile_append_dropWhile _ (!unended uuid ·) l
    rw [hl] at hsplit
    refine iff_of_false (fun heq => h0 ?_) fun h => ?_
    · have hat : l[(l.takeWhile (!unended uuid ·)).length]? = some s := by
        generalize l.takeWhile (!unended uuid ·) = newer at hsplit
        rw [← hsplit]
        simp
      have hleft := @closeNewer_getElem? uuid time s (marks_of_unended hs) l _ hat
      have hright : (endSession uuid time l)[(l.takeWhile (!unended uuid ·)).length]? =
          some { s with stop := time } := by
        rw [endSession, hl, ← length_map (close uuid time)]
        simp
      rw [heq, hright] at hleft
      exact (congrArg stop (Option.some.inj hleft)).trans (of_decide_eq_true hs).2.2
    · have := (h.resolve_left h0).1 s (hsplit ▸ by simp)
      exact absurd (hs.symm.trans this) (by decide)

theorem append_cons_eq_iff {a b c d : List Event} (h : a.length = b.length) (s : Event) :
    a ++ s :: c = b ++ s :: d ↔ a = b ∧ c = d := by
  refine ⟨fun heq => ?_, fun heq => by rw [heq.1, heq.2]⟩
  obtain ⟨hab, hcd⟩ := append_inj heq h
  exact ⟨hab, (cons_inj_right s).mp hcd⟩

/-! ## Ends exactly -/

/-- After the records `rs` a stop ends what is described, and nothing else changes. -/
def EndsExactly (opts : Options) (rs : List Record) (v : Virt) (vmPid : Option Int) : Prop :=
  (addStopGuestEvent v vmPid (run opts rs)).take (run opts rs).length = describedStop v (run opts rs)

theorem take_addStop_eq_iff (v : Virt) (vmPid : Option Int) (events : List Event) :
    (addStopGuestEvent v vmPid events).take events.length = describedStop v events ↔
      v.time = 0 ∨ (v.success = true ∧ runs v.uuid events.reverse = true) ∨
        (v.success = true → ∀ e ∈ events, unended v.uuid e = false) ∧
          ∀ e ∈ walked v.uuid events.reverse, ¬ e.IsOpen v.uuid := by
  rw [← reverse_inj, describedStop]
  cases hr : runs v.uuid events.reverse with
  | true =>
    have hrun := hr
    rw [runs_eq] at hrun
    obtain ⟨s, hhead, hs⟩ := (Option.any_eq_true ..).mp hrun
    obtain ⟨older, hl⟩ := head?_eq_some_iff.mp hhead
    rw [take_addStop_of_runs hl hs]
    cases hsuc : v.success with
    | true => simp [endSession_of_runs hl hs]
    | false =>
      have hwalked : walked v.uuid events.reverse =
          events.reverse.takeWhile (!marks v.uuid ·) ++ older.takeWhile (!marks v.uuid ·) := by
        rw [walked, hl]
        exact congrArg _ (if_pos hs)
      have hsplit := @takeWhile_append_dropWhile _ (!marks v.uuid ·) events.reverse
      rw [hl] at hsplit
      simp only [Bool.false_eq_true, if_false, hwalked, false_and, false_or, false_implies, true_and,
        forall_mem_append, or_and_left]
      rw [← map_close_eq_self_iff, ← closeNewer_eq_self_iff, ← append_cons_eq_iff (length_map _) s,
        hsplit]
  | false =>
    rw [take_addStop_of_not_runs hr, walked_of_not_runs hr]
    cases v.success with
    | true => simpa using @closeNewer_eq_endSession_iff v.uuid v.time events.reverse
    | false => simpa using closeNewer_eq_self_iff

/-- **A stop ends what it should if and only if it succeeds and the guest's last mark is a start that is
not over, or nothing has to be ended and the loop comes to no open resource.** -/
theorem endsExactly_iff (opts : Options) (rs : List Record) (v : Virt) (vmPid : Option Int) :
    EndsExactly opts rs v vmPid ↔
      v.time = 0 ∨ (v.success = true ∧ runs v.uuid (run opts rs).reverse = true) ∨
        (v.success = true → ∀ e ∈ run opts rs, unended v.uuid e = false) ∧
          ∀ e ∈ walked v.uuid (run opts rs).reverse, ¬ e.IsOpen v.uuid :=
  take_addStop_eq_iff v vmPid (run opts rs)

/-- A guest that runs with a disk cannot be stopped.  The assignment of the disk ends all the same. -/
theorem not_endsExactly_failed : ∃ rs v, v.success = false ∧ ¬ EndsExactly .default rs v none ∧
      ∃ e ∈ addStopGuestEvent v none (run .default rs), e.type = .res ∧ e.stop = v.time := by
  refine ⟨[⟨.control (some (ascii "start")) none, 10, some none, some none, some (ascii "u"),
      some (ascii "success")⟩,
    ⟨.resource (some (ascii "disk")) none none (some (ascii "/d")) none, 20, some none, some none,
      some (ascii "u"), some (ascii "success")⟩], ⟨none, none, ascii "u", false, 30⟩, ?_⟩
  unfold EndsExactly
  decide +kernel

end LibAudit.Auvirt
