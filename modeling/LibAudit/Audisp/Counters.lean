import LibAudit.Audisp.Queue
import Mathlib.Data.List.Infix
import Mathlib.Data.List.Induction
import Mathlib.Order.Bounds.Basic

/-!
# The counters of the queue to the plugins

`currently_used` is meant to be the number of occupied slots, and `max_used` the largest value that it
has had.  `dequeue` counts down whenever it gets to its end, also if it was woken up and has found no
event: after a nudge, for no reason at all, or because the ring has grown and the events are elsewhere.
Nothing sets the counter right again.  `countsExactly_iff` says that this is the only way in which the
counters go wrong.
-/

namespace LibAudit.Audisp

open List Option

variable {α : Type} {size : Nat} {hsize : 0 < size} {s : System α} {step : Step α}
  {steps : List (Step α)}

/-- The number of occupied slots. -/
def Queue.occupied (s : Queue α) : Nat := s.q.countP Option.isSome

/-- `currently_used`, as a number. -/
def Queue.used (s : Queue α) : Nat := s.currentlyUsed.toNat

/-- The values that `currently_used` has had in a run. -/
def values (size : Nat) (h : 0 < size) (steps : List (Step α)) : Set Nat :=
  { v | ∃ before, before <+: steps ∧ (run size h before).queue.used = v }

/-- The counters are right after this run. -/
structure CountedRight (size : Nat) (h : 0 < size) (steps : List (Step α)) : Prop where
  used : (run size h steps).queue.used = (run size h steps).queue.occupied
  max : IsGreatest (values size h steps) (run size h steps).queue.maxUsed.toNat

/-- They are right all the time. -/
def CountsExactly (size : Nat) (h : 0 < size) (steps : List (Step α)) : Prop :=
  ∀ before, before <+: steps → CountedRight size h before

/-- A call of `dequeue` is woken up, goes on, and finds no event. -/
def WokenForNothing (s : System α) (step : Step α) : Prop :=
  step = .wake false ∧ s.consumer ≠ .idle ∧ s.queue.front = none

/-- `q_depth` is an `unsigned int` all the time. -/
def Sized (size : Nat) (h : 0 < size) (steps : List (Step α)) : Prop :=
  ∀ before, before <+: steps → (run size h before).queue.qDepth < 2 ^ 32

/-! ## One step -/

/-- What a step does to the counters: nothing, an event comes or goes, or one is counted that is not
there. -/
inductive Counted (s : System α) (step : Step α) (q : Queue α) : Prop
  | same (h : ¬ WokenForNothing s step) (occupied : q.occupied = s.queue.occupied)
      (used : q.currentlyUsed = s.queue.currentlyUsed) (max : q.maxUsed = s.queue.maxUsed)
  | come (h : ¬ WokenForNothing s step) (occupied : q.occupied = s.queue.occupied + 1)
      (used : q.currentlyUsed = s.queue.currentlyUsed + 1)
      (max : q.maxUsed = Max.max s.queue.maxUsed (s.queue.currentlyUsed + 1))
  | go (h : ¬ WokenForNothing s step) (occupied : q.occupied + 1 = s.queue.occupied)
      (used : q.currentlyUsed = s.queue.currentlyUsed - 1) (max : q.maxUsed = s.queue.maxUsed)
  | missing (h : WokenForNothing s step) (occupied : q.occupied = s.queue.occupied)
      (used : q.currentlyUsed = s.queue.currentlyUsed - 1)

theorem counted_put {q : Queue α} {e : α} (hp : ¬ WokenForNothing s step)
    (h : s.queue.put e = some q) : Counted s step q := by
  have hn : s.queue.qNext % s.queue.qDepth < s.queue.q.length := Nat.mod_lt _ s.queue.depth_pos
  rw [Queue.put] at h
  split at h
  · rename_i hv
    obtain rfl := some.inj h
    refine .come hp ?_ rfl rfl
    have hv : s.queue.q[s.queue.qNext % s.queue.qDepth] = none := (List.getElem?_eq_some_iff.mp hv).2
    simp [Queue.occupied, countP_set hn, hv]
  · cases h

theorem counted_grab (hp : WokenForNothing s step ↔ s.queue.front = none) :
    Counted s step s.queue.grab.2 := by
  have hn : s.queue.qLast % s.queue.qDepth < s.queue.q.length := Nat.mod_lt _ s.queue.depth_pos
  cases hf : s.queue.front with
  | none =>
    simp only [Queue.grab, hf]
    exact .missing (hp.mpr hf) rfl rfl
  | some a =>
    have ha : s.queue.q[s.queue.qLast % s.queue.qDepth] = some a := by
      rwa [Queue.front, List.getElem?_eq_getElem hn, join_some] at hf
    have hpos : 0 < s.queue.q.countP Option.isSome :=
      countP_pos_iff.mpr ⟨some a, ha ▸ getElem_mem hn, rfl⟩
    simp only [Queue.grab, hf]
    refine .go (fun h => by rw [hp, hf] at h; cases h) ?_ rfl rfl
    simp only [Queue.occupied, countP_set hn, ha, isSome_some, isSome_none,
      if_true, Bool.false_eq_true, if_false]
    omega

/-- **One step** changes the counters in one of these ways. -/
theorem System.counted_step (s : System α) (step : Step α) : Counted s step (s.step step).queue := by
  cases step with
  | enqueue e =>
    have hp : ¬ WokenForNothing s (.enqueue e) := fun h => by cases h.1
    rw [System.step]
    split
    · split <;> exact .same hp rfl rfl rfl
    · exact .same hp rfl rfl rfl
  | attempt action =>
    have hp : ¬ WokenForNothing s (.attempt action) := fun h => by cases h.1
    rw [System.step]
    split
    · exact .same hp rfl rfl rfl
    · split
      · simp only [doOverflowAction]
        split
        · split <;> exact .same hp rfl rfl rfl
        all_goals exact .same hp rfl rfl rfl
      · split
        · exact counted_put hp ‹_›
        · exact .same hp rfl rfl rfl
  | dequeue dispHup =>
    have hp : ¬ WokenForNothing s (.dequeue dispHup) := fun h => by cases h.1
    rw [System.step]
    split
    · exact .same hp rfl rfl rfl
    · split
      · exact .same hp rfl rfl rfl
      · split
        · exact .same hp rfl rfl rfl
        · rename_i hfront
          refine counted_grab (iff_of_false hp fun h => hfront ?_)
          rw [h, isNone_none]
  | wake dispHup =>
    rw [System.step]
    split
    · rename_i hidle
      exact .same (fun h => h.2.1 hidle) rfl rfl rfl
    · rename_i hwait
      split
      · rename_i hhup
        refine .same (fun h => ?_) rfl rfl rfl
        cases h.1
        cases hhup
      · rename_i hhup
        refine counted_grab ⟨fun h => h.2.2, fun h => ⟨?_, ?_, h⟩⟩
        · rw [Bool.eq_false_iff.mpr hhup]
        · rw [hwait]
          exact fun h => by cases h
  | nudge => exact .same (fun h => by cases h.1) rfl rfl rfl
  | increase n =>
    have hp : ¬ WokenForNothing s (.increase n) := fun h => by cases h.1
    simp only [System.step, Queue.increase]
    split
    · exact .same hp (by simp [Queue.occupied, countP_replicate]) rfl rfl
    · exact .same hp rfl rfl rfl
  | resume => exact .same (fun h => by cases h.1) rfl rfl rfl
  | reset => exact .same (fun h => by cases h.1) rfl rfl rfl

/-! ## Runs -/

theorem toNat_max (a b : UInt32) : (max a b).toNat = max a.toNat b.toNat := by
  rw [show max a b = if a ≤ b then b else a from rfl]
  split
  · exact (max_eq_right (UInt32.le_iff_toNat_le.mp ‹_›)).symm
  · exact (max_eq_left (Nat.le_of_not_le fun h => ‹¬ a ≤ b› (UInt32.le_iff_toNat_le.mpr h))).symm

/-- A step that counts no event that is not there keeps the counters right. -/
theorem used_step (h : s.queue.used = s.queue.occupied)
    (hle : s.queue.used ≤ s.queue.maxUsed.toNat) (hp : ¬ WokenForNothing s step)
    (hdepth : (s.step step).queue.qDepth < 2 ^ 32) :
    (s.step step).queue.used = (s.step step).queue.occupied ∧
      (s.step step).queue.maxUsed.toNat = max s.queue.maxUsed.toNat (s.step step).queue.used := by
  have hocc : (s.step step).queue.occupied ≤ (s.step step).queue.qDepth := countP_le_length
  simp only [Queue.used] at h hle ⊢
  cases s.counted_step step with
  | same _ ho hu hm => exact ⟨by rw [hu, ho, h], by rw [hm, hu, max_eq_left hle]⟩
  | come _ ho hu hm =>
    have hu' : (s.queue.currentlyUsed + 1).toNat = s.queue.currentlyUsed.toNat + 1 := by
      rw [UInt32.toNat_add, UInt32.toNat_one, Nat.mod_eq_of_lt (by omega)]
    exact ⟨by rw [hu, ho, hu', h], by rw [hm, hu, toNat_max]⟩
  | go _ ho hu hm =>
    have hpos : 1 ≤ s.queue.currentlyUsed := UInt32.le_iff_toNat_le.mpr (by rw [UInt32.toNat_one]; omega)
    have hu' := UInt32.toNat_sub_of_le _ _ hpos
    grind
  | missing hnothing => exact absurd hnothing hp

theorem values_snoc : values size hsize (steps ++ [step]) =
    insert (run size hsize (steps ++ [step])).queue.used (values size hsize steps) := by
  ext v
  simp only [values, prefix_concat_iff, Set.mem_ofPred_eq, Set.mem_insert_iff]
  grind

theorem values_nil : values size hsize ([] : List (Step α)) = {0} := by
  ext v
  simp [values, run, System.init, initQueue, Queue.used, eq_comm]

/-- **The counters stay right** if no call of `dequeue` is woken up for nothing. -/
theorem countedRight_of_never (hsized : Sized size hsize steps)
    (h : ∀ before step, before ++ [step] <+: steps → ¬ WokenForNothing (run size hsize before) step) :
    CountedRight size hsize steps := by
  induction steps using List.reverseRecOn with
  | nil =>
    refine ⟨?_, ?_⟩
    · simp [run, System.init, initQueue, Queue.used, Queue.occupied, countP_replicate]
    · rw [values_nil]
      exact isGreatest_singleton
  | append_singleton steps step ih =>
    have hsub : steps <+: steps ++ [step] := prefix_append _ _
    have ih := ih (fun before hb => hsized before (hb.trans hsub)) fun before x hb =>
      h before x (hb.trans hsub)
    have hdepth := hsized _ prefix_rfl
    rw [run_append] at hdepth
    obtain ⟨hused, hmax⟩ := used_step ih.used (ih.max.2 ⟨steps, prefix_rfl, rfl⟩)
      (h steps step prefix_rfl) hdepth
    rw [← run_append] at hused hmax
    refine ⟨hused, ?_⟩
    rw [values_snoc, hmax, max_comm]
    exact ih.max.insert _

/-- **The counters are right all the time exactly if no call of `dequeue` is woken up for nothing.** -/
theorem countsExactly_iff (h : 0 < size) (steps : List (Step α)) (hsized : Sized size h steps) :
    CountsExactly size h steps ↔
      ∀ before step, before ++ [step] <+: steps → ¬ WokenForNothing (run size h before) step := by
  constructor
  · intro hcounts before step hb hnothing
    have hbefore := (hcounts before ((prefix_append _ _).trans hb)).used
    have hafter := (hcounts _ hb).used
    rw [run_append] at hafter
    cases (run size h before).counted_step step with
    | missing _ ho hu =>
      -- the number of occupied slots is the same, but not `currently_used`
      rw [ho, ← hbefore, Queue.used, Queue.used, hu, UInt32.toNat_sub, UInt32.toNat_one] at hafter
      have := (run size h before).queue.currentlyUsed.toNat_lt
      omega
    | same hnot => exact hnot hnothing
    | come hnot => exact hnot hnothing
    | go hnot => exact hnot hnothing
  · intro hnever before hb
    exact countedRight_of_never (fun before' hb' => hsized before' (hb'.trans hb))
      fun before' x hb' => hnever before' x (hb'.trans hb)

/-- `dequeue` waits for an event and gets it; two more come, and one of them goes. -/
def threeEvents : List (Step Nat) :=
  [.dequeue false, .enqueue 1, .attempt .ignore, .wake false, .enqueue 2, .attempt .ignore, .enqueue 3,
    .attempt .ignore, .dequeue false]

theorem countsExactly_threeEvents : CountsExactly 2 Nat.two_pos threeEvents := by
  refine (countsExactly_iff Nat.two_pos threeEvents fun before hb => ?_).mpr fun before step hb => ?_
  · have hall : ∀ p ∈ threeEvents.inits, (run 2 Nat.two_pos p).queue.qDepth < 2 ^ 32 := by decide
    exact hall before ((mem_inits _ _).mpr hb)
  · rintro ⟨rfl, -, hfront⟩
    have hall : ∀ p ∈ threeEvents.inits, p.getLast? = some (.wake false) →
        (run 2 Nat.two_pos p.dropLast).queue.front ≠ none := by decide
    refine hall _ ((mem_inits _ _).mpr hb) getLast?_concat ?_
    rwa [dropLast_concat]

/-- `dequeue` waits, and a nudge wakes it up: an empty queue is said to hold 2 ^ 32 - 1 events. -/
theorem not_countsExactly_nudged :
    ¬ CountsExactly 1 Nat.one_pos ([.dequeue false, .nudge, .wake false] : List (Step Nat)) := by
  intro h
  have hused := (h _ prefix_rfl).used
  revert hused
  decide

end LibAudit.Audisp
