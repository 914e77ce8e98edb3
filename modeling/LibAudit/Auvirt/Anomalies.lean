import LibAudit.Auvirt.Events
import Mathlib.Data.List.Induction

/-!
# Whose anomaly it is

An anomaly belongs to the guest whose process it names.  That is the guest of the most recent successful
start with this process id, if the start has not ended and no stop with the id came after it.  Otherwise
it belongs to the running session of the guest whose most recent machine-id record has the security level
of the anomaly.

`process_anom` means to look for such a start from the end of the list backwards.  Its loops follow
`next`, though, and the last event has none: a start is found only if it is the last event
(`anomStart_eq_some_iff`).  There are three more differences.  The security level is only looked for
behind the process id, a guest may have got another one since the record with the level, and nothing is
recorded without a user.
-/

namespace LibAudit.Auvirt

open Option List

/-! ## Whose it should be -/

/-- The machine-id record of the guest that has the security level now. -/
def machineIdWith (seclevel : Bytes) (events : List Event) : Option Event :=
  events.reverse.find? fun e => e.type = .machineId ∧ e.seclevel = some seclevel ∧
    events.reverse.find? (fun e' => e'.type = .machineId ∧ e'.uuid = e.uuid) = some e

/-- The start that an anomaly belongs to. -/
def describedStart (events : List Event) (fields : List AnomField) : Option Event :=
  (if 0 ≤ pidOf fields then runningStart (hasPid (pidOf fields)) events.reverse else none).or <|
    (((subjOf fields).bind (getSeclevel 0)).bind (machineIdWith · events)).bind
      fun machineId => runningStart (sameGuest machineId) events.reverse

/-- After the records `rs` the anomaly `r` is recorded for the guest that it belongs to, and not at all if
it belongs to none. -/
def Attributed (opts : Options) (rs : List Record) (r : Record) (fields : List AnomField) : Prop :=
  handle opts (run opts rs) r = run opts rs ++
    ((describedStart (run opts rs) fields).map (anomEvent r fields r.uid.join)).toList

/-! ## A search that sees one event only -/

/-- The last event is the start of a running guest that the record names, as it is read. -/
structure Seen (events : List Event) (fields : List AnomField) (e : Event) : Prop where
  last : events.getLast? = some e
  running : e.success = true ∧ e.type = .start ∧ e.stop = 0
  named : 0 ≤ pidOf fields ∧ e.pid = pidOf fields ∨
    ∃ context level machineId, subjBehindPid fields = some context ∧
      getSeclevel 0 context = some level ∧ getMachineIdBySeclevel level events = some machineId ∧
      machineId.uuid.isSome = true ∧ e.uuid = machineId.uuid

theorem runningStart_singleton (fits : Event → Bool) (last s : Event) : runningStart fits [last] = some s ↔
    last = s ∧ (s.success = true ∧ s.type = .start ∧ s.stop = 0) ∧ fits s = true := by
  rw [runningStart, filter_eq_some_iff, find?_singleton]
  grind

/-- **A start is found if and only if it is the last event, and named by the record.** -/
theorem anomStart_eq_some_iff (events : List Event) (fields : List AnomField) (e : Event) :
    anomStart events fields = some e ↔ Seen events fields e := by
  induction events using List.reverseRecOn with
  | nil =>
    refine iff_of_false (fun h => ?_) fun h => Option.some_ne_none e h.last.symm
    simp [anomStart, runningStart, getMachineIdBySeclevel] at h
  | append_singleton es last _ =>
    have hdrop : (es ++ [last]).drop ((es ++ [last]).length - 1) = [last] := by
      rw [length_append, length_singleton, Nat.add_sub_cancel, drop_left]
    have hpid : ∀ s, (if 0 ≤ pidOf fields then runningStart (hasPid (pidOf fields)) [last] else none) =
        some s ↔ last = s ∧ (s.success = true ∧ s.type = .start ∧ s.stop = 0) ∧
          0 ≤ pidOf fields ∧ s.pid = pidOf fields := by
      intro s
      rw [Option.ite_none_right_eq_some, runningStart_singleton, hasPid, decide_eq_true_eq]
      tauto
    have hlevel : (((subjBehindPid fields).bind (getSeclevel 0)).bind
        (getMachineIdBySeclevel · (es ++ [last]))).bind (fun m => runningStart (sameGuest m) [last]) =
        some e ↔ last = e ∧ (e.success = true ∧ e.type = .start ∧ e.stop = 0) ∧
          ∃ context level machineId, subjBehindPid fields = some context ∧
            getSeclevel 0 context = some level ∧
            getMachineIdBySeclevel level (es ++ [last]) = some machineId ∧
            machineId.uuid.isSome = true ∧ e.uuid = machineId.uuid := by
      simp only [bind_eq_some_iff, runningStart_singleton, sameGuest, decide_eq_true_eq]
      grind
    rw [anomStart, hdrop, or_eq_some_iff, hpid, hlevel]
    constructor
    · rintro (⟨rfl, hrunning, hnamed⟩ | ⟨-, rfl, hrunning, hnamed⟩)
      · exact ⟨getLast?_concat, hrunning, .inl hnamed⟩
      · exact ⟨getLast?_concat, hrunning, .inr hnamed⟩
    · rintro ⟨hlast, hrunning, hnamed⟩
      obtain rfl : last = e := Option.some.inj (getLast?_concat.symm.trans hlast)
      by_cases hbyPid : 0 ≤ pidOf fields ∧ last.pid = pidOf fields
      · exact .inl ⟨rfl, hrunning, hbyPid⟩
      · refine .inr ⟨Option.eq_none_iff_forall_ne_some.mpr fun s hs => ?_, rfl, hrunning,
          hnamed.resolve_left hbyPid⟩
        obtain ⟨rfl, -, hs⟩ := (hpid s).mp hs
        exact hbyPid hs

/-! ## Attribution -/

theorem handle_anom {opts : Options} {r : Record} {fields : List AnomField} (hkind : r.kind = .anom fields)
    (hwanted : wanted opts r = true) (hall : opts.allEvents = true) (events : List Event) :
    handle opts events r = processAnom r fields events := by
  rw [handle, if_pos hwanted, hkind]
  exact if_pos hall

/-- **An anomaly is attributed as described if and only if the guest that it belongs to is the one that the
last event is a start of, or there is none and nothing is seen.** -/
theorem attributed_iff {opts : Options} {r : Record} {fields : List AnomField}
    (hkind : r.kind = .anom fields) (hwanted : wanted opts r = true) (hall : opts.allEvents = true)
    (rs : List Record) : Attributed opts rs r fields ↔
      (∀ s, describedStart (run opts rs) fields = some s → r.uid.isSome = true ∧
        ∃ e, Seen (run opts rs) fields e ∧ e.uuid = s.uuid ∧ e.name = s.name) ∧
      (describedStart (run opts rs) fields = none → r.uid.isSome = true →
        ∀ e, ¬ Seen (run opts rs) fields e) := by
  rw [Attributed, handle_anom hkind hwanted hall, processAnom]
  simp only [← anomStart_eq_some_iff]
  cases describedStart (run opts rs) fields <;> cases anomStart (run opts rs) fields <;> cases r.uid <;>
    simp [anomEvent]

/-- A guest is started as process 7, and a disk is taken for it. -/
def diskRecords : List Record :=
  [⟨.control (some (ascii "start")) (some 7), 10, some none, some none, some (ascii "u"),
      some (ascii "success")⟩,
    ⟨.resource (some (ascii "disk")) none none (some (ascii "/d")) none, 20, some none, some none,
      some (ascii "u"), some (ascii "success")⟩]

/-- An anomaly of that process. -/
def anomaly : Record := ⟨.anom [.pid 7], 30, some none, none, none, none⟩

/-- What is recorded for its start. -/
def guestStart : Event :=
  { type := .start, start := 10, user := none, uuid := some (ascii "u"), name := none, success := true,
    pid := 7 }

/-- If the disk came before the start, the anomaly is attributed to the guest. -/
theorem attributed_start : Attributed .default diskRecords.reverse anomaly [.pid 7] := by
  have hlast : (run .default diskRecords.reverse).getLast? = some guestStart := by decide
  have hstart : describedStart (run .default diskRecords.reverse) [.pid 7] = some guestStart := by decide
  refine (attributed_iff rfl (by decide) rfl _).mpr ⟨fun s hs => ?_, fun h => absurd h (by decide)⟩
  obtain rfl : guestStart = s := Option.some.inj (hstart.symm.trans hs)
  exact ⟨rfl, guestStart, ⟨hlast, by decide, .inl (by decide)⟩, rfl, rfl⟩

/-- The guest has a disk by now, and the anomaly is lost. -/
theorem not_attributed_disk : ¬ Attributed .default diskRecords anomaly [.pid 7] ∧
    (describedStart (run .default diskRecords) [.pid 7]).isSome = true ∧
    handle .default (run .default diskRecords) anomaly = run .default diskRecords := by
  unfold Attributed
  decide +kernel

end LibAudit.Auvirt
