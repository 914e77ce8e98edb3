import LibAudit.Audisp.Queue
import Mathlib.Data.List.Induction

/-!
# The queue to the plugins is in order until it has grown at the wrong moment

`increase_queue_depth` adds slots at the end of the ring and leaves `q_next` and `q_last` where they
are.  If the events in the ring reach its end at that moment, those that come later are stored at its
beginning, but `dequeue` goes on to the new slots, which are empty.

There are two kinds of layouts: `Whole`, a ring that holds its events from `q_last` on, and `Cut`, in
which the events are in two pieces, one from `q_last` on and one at the beginning.  One growth leads from
the first to the second, and nothing leads back.  `Sound` says that the system is in one of them; it is
kept by every step from a state that is in order, and it decides whether the state is in order.
-/

namespace LibAudit.Audisp

open List Option Queue
open Nat (mod_eq_of_lt)

variable {α : Type} {s s' : Queue α} {e : α} {l front back : List α}

/-- Slot `i` stores `a`. -/
def Stores (q : List (Option α)) (i : Nat) (a : α) : Prop := q[i]? = some (some a)

/-- Slot `i` stores nothing. -/
def Vacant (q : List (Option α)) (i : Nat) : Prop := q[i]? = some none

theorem Stores.not_vacant {q : List (Option α)} {i : Nat} {a : α} (h : Stores q i a) : ¬ Vacant q i := by
  intro hv
  rw [Stores, hv] at h
  cases h

/-! ## What one operation does to the slots -/

/-- What `put` does if it succeeds. -/
theorem Queue.put_eq_some (h : s.put e = some s') :
    Vacant s.q (s.qNext % s.qDepth) ∧ s'.q = s.q.set (s.qNext % s.qDepth) (some e) ∧
      s'.qNext = (s.qNext % s.qDepth + 1) % s.qDepth ∧ s'.qLast = s.qLast := by
  rw [put] at h
  split at h
  · rename_i hv
    obtain rfl := some.inj h
    exact ⟨hv, rfl, rfl, rfl⟩
  · cases h

theorem Queue.grab_of_front {a : α} (h : s.front = some a) :
    s.grab.1 = some a ∧ s.grab.2.q = s.q.set (s.qLast % s.qDepth) none ∧
      s.grab.2.qLast = (s.qLast % s.qDepth + 1) % s.qDepth ∧ s.grab.2.qNext = s.qNext := by
  simp only [grab, h, and_self]

theorem Queue.grab_of_no_front (h : s.front = none) :
    s.grab.1 = none ∧ s.grab.2.q = s.q ∧ s.grab.2.qLast = s.qLast ∧ s.grab.2.qNext = s.qNext := by
  simp only [grab, h, and_self]

theorem Queue.front_of_stores {a : α} (h : Stores s.q (s.qLast % s.qDepth) a) : s.front = some a := by
  rw [front, h, join_some]

theorem Queue.front_of_vacant (h : Vacant s.q (s.qLast % s.qDepth)) : s.front = none := by
  rw [front, h, join_some]

variable {size : Nat}

theorem Queue.increase_of_lt (h : s.qDepth < size) :
    (s.increase size).q = s.q ++ List.replicate (size - s.qDepth) none ∧
      (s.increase size).qDepth = size ∧ (s.increase size).qNext = s.qNext ∧
      (s.increase size).qLast = s.qLast := by
  rw [increase, if_pos h]
  refine ⟨rfl, ?_, rfl, rfl⟩
  rw [qDepth, length_append, length_replicate, ← qDepth]
  omega

theorem Queue.increase_of_ge (h : ¬ s.qDepth < size) : s.increase size = s := by
  rw [increase, if_neg h]

section Slots

variable {q : List (Option α)} {i j : Nat} {a : α} {v : Option α}

theorem stores_set_of_ne (h : i ≠ j) (hs : Stores q i a) : Stores (q.set j v) i a := by
  rwa [Stores, List.getElem?_set_ne (Ne.symm h)]

theorem vacant_set_of_ne (h : i ≠ j) (hs : Vacant q i) : Vacant (q.set j v) i := by
  rwa [Vacant, List.getElem?_set_ne (Ne.symm h)]

theorem getElem?_set_here (h : i < q.length) : (q.set i v)[i]? = some v := by
  rw [List.getElem?_set_self h]

theorem Stores.append {more : List (Option α)} (h : Stores q i a) : Stores (q ++ more) i a := by
  have hi : i < q.length := (List.getElem?_eq_some_iff.mp h).1
  rwa [Stores, List.getElem?_append_left hi]

theorem vacant_grown {m : Nat} (hi : i < m) (h : i < q.length → Vacant q i) :
    Vacant (q ++ List.replicate (m - q.length) none) i := by
  rcases Nat.lt_or_ge i q.length with hlt | hge
  · rw [Vacant, List.getElem?_append_left hlt]
    exact h hlt
  · rw [Vacant, List.getElem?_append_right hge, List.getElem?_replicate, if_pos (by omega)]

end Slots

/-! ## Layouts -/

/-- The ring holds `l` from `q_last` on. -/
structure Whole (s : Queue α) (l : List α) : Prop where
  last_lt : s.qLast < s.qDepth
  next_eq : s.qNext = (s.qLast + l.length) % s.qDepth
  fits : l.length ≤ s.qDepth
  holds : Ring.Holds (Stores s.q) s.qDepth s.qLast l
  free : Ring.Free (Vacant s.q) s.qDepth s.qLast l.length

/-- The ring has grown: it holds `front` from `q_last` up to its old end, which is not its end any
more, and `back` at the beginning. -/
structure Cut (s : Queue α) (front back : List α) : Prop where
  end_lt : s.qLast + front.length < s.qDepth
  end_pos : 0 < s.qLast + front.length
  next_eq : s.qNext = back.length
  next_le : back.length ≤ s.qLast
  holds_front : Ring.Straight (Stores s.q) s.qLast front
  holds_back : Ring.Straight (Stores s.q) 0 back
  free : ∀ i, i < s.qDepth → back.length ≤ i → ¬ (s.qLast ≤ i ∧ i < s.qLast + front.length) →
    Vacant s.q i

/-- The layout depends on three variables only. -/
theorem Whole.of_eq (h : Whole s l) (hq : s'.q = s.q) (hl : s'.qLast = s.qLast)
    (hn : s'.qNext = s.qNext) : Whole s' l := by
  have hd : s'.qDepth = s.qDepth := congrArg List.length hq
  refine ⟨?_, ?_, ?_, ?_, ?_⟩
  · rw [hl, hd]; exact h.last_lt
  · rw [hn, hl, hd]; exact h.next_eq
  · rw [hd]; exact h.fits
  · rw [hq, hl, hd]; exact h.holds
  · rw [hq, hl, hd]; exact h.free

theorem Cut.of_eq (h : Cut s front back) (hq : s'.q = s.q) (hl : s'.qLast = s.qLast)
    (hn : s'.qNext = s.qNext) : Cut s' front back := by
  have hd : s'.qDepth = s.qDepth := congrArg List.length hq
  refine ⟨?_, ?_, ?_, ?_, ?_, ?_, ?_⟩
  · rw [hl, hd]; exact h.end_lt
  · rw [hl]; exact h.end_pos
  · rw [hn]; exact h.next_eq
  · rw [hl]; exact h.next_le
  · rw [hq, hl]; exact h.holds_front
  · rw [hq]; exact h.holds_back
  · rw [hq, hl, hd]; exact h.free

theorem whole_initQueue (size : Nat) (h : 0 < size) : Whole (initQueue size h : Queue α) [] := by
  have hd : (initQueue size h : Queue α).qDepth = size := length_replicate
  refine ⟨?_, ?_, ?_, Ring.holds_nil, Ring.free_of_forall fun i hi => ?_⟩
  · rw [hd]; exact h
  · exact (Nat.zero_mod _).symm
  · exact Nat.zero_le _
  · rw [hd] at hi
    rw [Vacant, initQueue, List.getElem?_replicate, if_pos hi]

/-! ## Rings in one piece -/

theorem Whole.front_nil (h : Whole s []) : s.front = none := by
  have hv : Vacant s.q ((s.qLast + 0) % s.qDepth) := h.free.tail s.depth_pos
  exact front_of_vacant (by rwa [Nat.add_zero] at hv)

theorem Whole.front_cons {a : α} (h : Whole s (a :: l)) : s.front = some a := by
  refine front_of_stores ?_
  rw [mod_eq_of_lt h.last_lt]
  exact h.holds.front h.last_lt

theorem Whole.length_lt (h : Whole s l) (hv : Vacant s.q (s.qNext % s.qDepth)) :
    l.length < s.qDepth := by
  refine lt_of_le_of_ne h.fits fun heq => ?_
  cases l with
  | nil => exact absurd heq.symm (Nat.ne_of_gt s.depth_pos)
  | cons a l =>
    have hslot : s.qNext % s.qDepth = s.qLast := by
      rw [h.next_eq, Nat.mod_mod, heq, Nat.add_mod_right, mod_eq_of_lt h.last_lt]
    rw [hslot] at hv
    exact (h.holds.front h.last_lt).not_vacant hv

theorem Whole.put (h : Whole s l) (hput : s.put e = some s') : Whole s' (l ++ [e]) := by
  obtain ⟨hv, hq, hn, hl⟩ := put_eq_some hput
  have hlt := h.length_lt hv
  have hd : s'.qDepth = s.qDepth := by rw [qDepth, hq, length_set]; rfl
  have hslot : s.qNext % s.qDepth = (s.qLast + l.length) % s.qDepth := by
    rw [h.next_eq, Nat.mod_mod]
  have hbound : (s.qLast + l.length) % s.qDepth < s.q.length := Nat.mod_lt _ s.depth_pos
  rw [hslot] at hq hn
  refine ⟨?_, ?_, ?_, ?_, ?_⟩
  · rw [hl, hd]; exact h.last_lt
  · rw [hn, hl, hd, length_append, length_singleton, Nat.mod_add_mod, Nat.add_assoc]
  · rw [hd, length_append, length_singleton]; exact hlt
  · rw [hq, hl, hd]
    exact h.holds.push hlt (fun i b hne hs => stores_set_of_ne hne hs) (getElem?_set_here hbound)
  · rw [hq, hl, hd, length_append, length_singleton]
    exact h.free.push fun i hne hv => vacant_set_of_ne hne hv

theorem Whole.grab {a : α} (h : Whole s (a :: l)) : Whole s.grab.2 l := by
  obtain ⟨-, hq, hl, hn⟩ := grab_of_front h.front_cons
  have hd : s.grab.2.qDepth = s.qDepth := by rw [qDepth, hq, length_set]; rfl
  have hlast := h.last_lt
  have hfits := h.fits
  rw [length_cons] at hfits
  rw [mod_eq_of_lt hlast] at hq hl
  rw [← Ring.next_eq_mod hlast] at hl
  refine ⟨?_, ?_, ?_, ?_, ?_⟩
  · rw [hl, hd]; exact Ring.next_lt hlast
  · rw [hn, hl, hd, Ring.next_add_mod hlast, h.next_eq, length_cons]
  · rw [hd]; omega
  · rw [hq, hl, hd]
    exact h.holds.pop hlast hfits fun i b hne hs => stores_set_of_ne hne hs
  · rw [hq, hl, hd]
    exact h.free.pop hlast (getElem?_set_here hlast) fun i hne hv => vacant_set_of_ne hne hv

/-- A growth that finds room behind the events, or no events. -/
theorem Whole.increase (h : Whole s l) (hsize : s.qDepth < size)
    (hroom : l = [] ∨ s.qLast + l.length < s.qDepth) : Whole (s.increase size) l := by
  obtain ⟨hq, hd, hn, hl⟩ := increase_of_lt hsize
  have hlast := h.last_lt
  have hend : s.qLast + l.length < s.qDepth := by
    rcases hroom with rfl | hroom
    · exact hlast
    · exact hroom
  have hmod : ∀ n, s.qDepth ≤ n → ∀ k ≤ l.length, (s.qLast + k) % n = s.qLast + k := fun n hn k hk =>
    mod_eq_of_lt (by omega)
  refine ⟨?_, ?_, ?_, ?_, ?_⟩
  · rw [hl, hd]; omega
  · rw [hn, hl, hd, h.next_eq, hmod _ le_rfl _ le_rfl, hmod _ hsize.le _ le_rfl]
  · rw [hd]; omega
  · rw [hq, hl, hd]
    intro k a hk
    have hkl : k < l.length := (List.getElem?_eq_some_iff.mp hk).1
    have hs := h.holds k a hk
    rw [hmod _ le_rfl _ hkl.le] at hs
    rw [hmod _ hsize.le _ hkl.le]
    exact hs.append
  · rw [hq, hl, hd]
    intro i hi hout
    refine vacant_grown hi fun hlt => h.free i hlt fun k hk => ?_
    have := hout k hk
    rwa [hmod _ hsize.le _ hk.le, ← hmod _ le_rfl _ hk.le] at this

/-- A growth that finds events up to the end cuts them in two. -/
theorem Whole.cut (h : Whole s l) (hsize : s.qDepth < size) (hend : s.qDepth ≤ s.qLast + l.length) :
    Cut (s.increase size) (l.take (s.qDepth - s.qLast)) (l.drop (s.qDepth - s.qLast)) := by
  obtain ⟨hq, hd, hn, hl⟩ := increase_of_lt hsize
  have hlast := h.last_lt
  have hfits := h.fits
  have hfront : (l.take (s.qDepth - s.qLast)).length = s.qDepth - s.qLast := by
    rw [length_take]; omega
  have hback : (l.drop (s.qDepth - s.qLast)).length = s.qLast + l.length - s.qDepth := by
    rw [length_drop]; omega
  refine ⟨?_, ?_, ?_, ?_, ?_, ?_, ?_⟩
  · rw [hl, hd, hfront]; omega
  · rw [hl, hfront]; omega
  · rw [hn, h.next_eq, hback, Nat.mod_eq_sub_mod hend, mod_eq_of_lt]
    -- the tail of a full ring is at its head
    omega
  · rw [hl, hback]; omega
  · rw [hq, hl]
    exact h.holds.straight_take.mono fun i a _ _ hs => hs.append
  · rw [hq]
    exact (h.holds.straight_drop hlast hfits).mono fun i a _ _ hs => hs.append
  · rw [hq, hl, hd, hfront, hback]
    intro i hi hout hnot
    refine vacant_grown hi fun hlt => h.free i hlt fun k hk heq => ?_
    rcases Nat.lt_or_ge (s.qLast + k) s.qDepth with hk' | hk'
    · rw [mod_eq_of_lt hk'] at heq
      omega
    · rw [Nat.mod_eq_sub_mod hk', mod_eq_of_lt (by omega)] at heq
      omega

/-! ## Rings in two pieces -/

theorem Cut.front_cons {a : α} (h : Cut s (a :: front) back) : s.front = some a := by
  have hend := h.end_lt
  refine front_of_stores ?_
  rw [mod_eq_of_lt (by omega)]
  exact h.holds_front.front

/-- At the old end nothing is found. -/
theorem Cut.front_nil (h : Cut s [] back) : s.front = none := by
  have hend := h.end_lt
  rw [length_nil, Nat.add_zero] at hend
  refine front_of_vacant ?_
  rw [mod_eq_of_lt hend]
  exact h.free _ hend h.next_le fun hin => by
    rw [length_nil] at hin
    omega

theorem Cut.put (h : Cut s front back) (hok : front = [] → back = []) (hput : s.put e = some s') :
    Cut s' front (back ++ [e]) := by
  obtain ⟨hv, hq, hn, hl⟩ := put_eq_some hput
  have hend := h.end_lt
  have hpos := h.end_pos
  have hle := h.next_le
  have hd : s'.qDepth = s.qDepth := by rw [qDepth, hq, length_set]; rfl
  rw [h.next_eq, mod_eq_of_lt (show back.length < s.qDepth by omega)] at hv hq hn
  -- the slot at the tail is not the one at the head, which is taken or is the old end
  have hlt : back.length < s.qLast := by
    refine lt_of_le_of_ne hle fun heq => ?_
    cases front with
    | nil =>
      simp_all
    | cons a front =>
      rw [heq] at hv
      exact h.holds_front.front.not_vacant hv
  refine ⟨?_, ?_, ?_, ?_, ?_, ?_, ?_⟩
  · rw [hl, hd]; exact hend
  · rw [hl]; exact hpos
  · rw [hn, length_append, length_singleton, mod_eq_of_lt]
    omega
  · rw [hl, length_append, length_singleton]; omega
  · rw [hq, hl]
    exact h.holds_front.mono fun i a hi _ hs => stores_set_of_ne (by omega) hs
  · rw [hq]
    refine Ring.Straight.push ?_ ?_
    · exact h.holds_back.mono fun i a _ hi hs => stores_set_of_ne (by omega) hs
    · rw [Nat.zero_add]
      exact getElem?_set_here (show back.length < s.qDepth by omega)
  · rw [hq, hl, hd, length_append, length_singleton]
    intro i hi hout hnot
    exact vacant_set_of_ne (by omega) (h.free i hi (by omega) hnot)

theorem Cut.grab {a : α} (h : Cut s (a :: front) back) : Cut s.grab.2 front back := by
  obtain ⟨-, hq, hl, hn⟩ := grab_of_front h.front_cons
  have hd : s.grab.2.qDepth = s.qDepth := by rw [qDepth, hq, length_set]; rfl
  have hend := h.end_lt
  have hle := h.next_le
  rw [length_cons] at hend
  rw [mod_eq_of_lt (show s.qLast < s.qDepth by omega)] at hq hl
  rw [mod_eq_of_lt (by omega)] at hl
  refine ⟨?_, ?_, ?_, ?_, ?_, ?_, ?_⟩
  · rw [hl, hd]; omega
  · rw [hl]; omega
  · rw [hn]; exact h.next_eq
  · rw [hl]; omega
  · rw [hq, hl]
    exact h.holds_front.tail.mono fun i b hi _ hs => stores_set_of_ne (by omega) hs
  · rw [hq]
    exact h.holds_back.mono fun i b _ hi hs => stores_set_of_ne (by omega) hs
  · rw [hq, hl, hd]
    intro i hi hout hnot
    by_cases hhead : i = s.qLast
    · rw [hhead]
      exact getElem?_set_here (show s.qLast < s.qDepth by omega)
    · refine vacant_set_of_ne hhead (h.free i hi hout fun hin => ?_)
      rw [length_cons] at hin
      omega

theorem Cut.increase (h : Cut s front back) (hsize : s.qDepth < size) :
    Cut (s.increase size) front back := by
  obtain ⟨hq, hd, hn, hl⟩ := increase_of_lt hsize
  have hend := h.end_lt
  refine ⟨?_, ?_, ?_, ?_, ?_, ?_, ?_⟩
  · rw [hl, hd]; omega
  · rw [hl]; exact h.end_pos
  · rw [hn]; exact h.next_eq
  · rw [hl]; exact h.next_le
  · rw [hq, hl]
    exact h.holds_front.mono fun i a _ _ hs => hs.append
  · rw [hq]
    exact h.holds_back.mono fun i a _ _ hs => hs.append
  · rw [hq, hl, hd]
    intro i hi hout hnot
    exact vacant_grown hi fun hlt => h.free i hlt hout hnot

/-! ## Runs -/

/-- What is known about the system at any time before it is out of order. -/
inductive System.Sound (s : System α) : Prop where
  | whole (left : List α) (end_none : s.oldEnd = none) (log : s.accepted = s.returned ++ left)
      (layout : Whole s.queue left) (wait : s.consumer = .waiting false → left = [])
  | cut (front back : List α) (end_some : s.oldEnd = some (s.returned.length + front.length))
      (log : s.accepted = s.returned ++ (front ++ back)) (layout : Cut s.queue front back)
      (wait : s.consumer = .waiting false → front ++ back = [])

/-- `dequeue` has not come to the old end yet, or no event was accepted that it would have to return
afterwards. -/
def System.NotPast (s : System α) : Prop :=
  ∀ b, s.oldEnd = some b → s.returned.length < b ∨ s.accepted.length ≤ b

section Runs

variable {s s' : System α}

theorem System.sound_init (size : Nat) (h : 0 < size) : (System.init size h : System α).Sound :=
  .whole [] rfl rfl (whole_initQueue size h) fun _ => rfl

theorem System.nextDequeue_eq {left : List α} (hleft : left ≠ [])
    (hwait : s.consumer = .waiting false → left = []) : s.nextDequeue = s.queue.front := by
  rw [System.nextDequeue]
  split
  · rename_i hc
    exact absurd (hwait hc) hleft
  · rfl
  · rfl

/-- What is left is determined by the logs. -/
theorem System.inOrder_iff {left : List α} (hlog : s.accepted = s.returned ++ left) :
    s.InOrder ↔ left = [] ∨ s.nextDequeue = left.head? := by
  constructor
  · rintro ⟨left', hlog', h⟩
    rw [hlog] at hlog'
    rwa [append_cancel_left hlog']
  · exact fun h => ⟨left, hlog, h⟩

theorem System.notPast_iff_of_cut {front back : List α}
    (hend : s.oldEnd = some (s.returned.length + front.length))
    (hlog : s.accepted = s.returned ++ (front ++ back)) : s.NotPast ↔ (front = [] → back = []) := by
  have hlen : s.accepted.length = s.returned.length + (front.length + back.length) := by
    rw [hlog, length_append, length_append]
  constructor
  · rintro h rfl
    have := h _ hend
    rw [length_nil] at this hlen
    exact eq_nil_of_length_eq_zero (by omega)
  · intro h b hb
    rw [hend] at hb
    obtain rfl := some.inj hb
    grind

/-- **As long as the layout is known**, the system is in order if and only if `dequeue` has not gone
past the old end of the ring and left events behind. -/
theorem System.Sound.inOrder_iff (h : s.Sound) : s.InOrder ↔ s.NotPast := by
  cases h with
  | whole left hend hlog hw hwait =>
    have hnot : s.NotPast := fun b hb => by rw [hend] at hb; cases hb
    refine iff_of_true ((System.inOrder_iff hlog).mpr ?_) hnot
    cases left with
    | nil => exact .inl rfl
    | cons a left => exact .inr ((System.nextDequeue_eq (by simp) hwait).trans hw.front_cons)
  | cut front back hend hlog hc hwait =>
    rw [System.inOrder_iff hlog, System.notPast_iff_of_cut hend hlog]
    cases front with
    | nil =>
      cases back with
      | nil => simp
      | cons b back => simp [System.nextDequeue_eq (cons_ne_nil b back) hwait, hc.front_nil]
    | cons a front =>
      refine iff_of_true (.inr ?_) (fun h => by cases h)
      exact (System.nextDequeue_eq (by simp) hwait).trans hc.front_cons

theorem System.Sound.of_eq (h : s.Sound) (hq : s'.queue.q = s.queue.q)
    (hl : s'.queue.qLast = s.queue.qLast) (hn : s'.queue.qNext = s.queue.qNext)
    (he : s'.oldEnd = s.oldEnd) (ha : s'.accepted = s.accepted) (hr : s'.returned = s.returned)
    (hc : s'.consumer = .waiting false → s.consumer = .waiting false ∨ s.queue.front = none)
    (hok : s.NotPast) : s'.Sound := by
  cases h with
  | whole left hend hlog hw hwait =>
    refine .whole left (he.trans hend) (by rw [ha, hr, hlog]) (hw.of_eq hq hl hn) fun hw' => ?_
    rcases hc hw' with hwaits | hfront
    · exact hwait hwaits
    · cases left with
      | nil => rfl
      | cons a left => rw [hw.front_cons] at hfront; cases hfront
  | cut front back hend hlog hcut hwait =>
    refine .cut front back (by rw [he, hend, hr]) (by rw [ha, hr, hlog]) (hcut.of_eq hq hl hn)
      fun hw' => ?_
    rcases hc hw' with hwaits | hfront
    · exact hwait hwaits
    · cases front with
      | nil => rw [(System.notPast_iff_of_cut hend hlog).mp hok rfl, append_nil]
      | cons a front => rw [hcut.front_cons] at hfront; cases hfront

/-- The end of a call of `dequeue`. -/
theorem System.Sound.finish (h : s.Sound) (hok : s.NotPast) : s.finish.Sound := by
  cases hf : s.queue.front with
  | none =>
    obtain ⟨hres, hq, hl, hn⟩ := grab_of_no_front hf
    refine h.of_eq hq hl hn rfl rfl ?_ (fun hw => by cases hw) hok
    show s.returned ++ s.queue.grab.1.toList = s.returned
    rw [hres, toList_none, append_nil]
  | some a =>
    have hret : s.finish.returned = s.returned ++ [a] := by
      rw [System.finish, (grab_of_front hf).1, toList_some]
    cases h with
    | whole left hend hlog hw hwait =>
      cases left with
      | nil => rw [hw.front_nil] at hf; cases hf
      | cons b left =>
        obtain rfl : b = a := some.inj (hw.front_cons.symm.trans hf)
        refine .whole left hend ?_ hw.grab fun hw => by cases hw
        rw [hret, append_assoc]
        exact hlog
    | cut front back hend hlog hc hwait =>
      cases front with
      | nil => rw [hc.front_nil] at hf; cases hf
      | cons b front =>
        obtain rfl : b = a := some.inj (hc.front_cons.symm.trans hf)
        refine .cut front back ?_ ?_ hc.grab fun hw => by cases hw
        · rw [hret, length_append, length_singleton, Nat.add_assoc, Nat.add_comm 1]
          exact hend
        · rw [hret, append_assoc]
          exact hlog

theorem Consumer.signal_ne (c : Consumer) : c.signal ≠ .waiting false := by
  cases c <;> simp [Consumer.signal]

/-- An event is put into the ring. -/
theorem System.Sound.put {queue : Queue α} {producer : Producer α} (h : s.Sound) (hok : s.NotPast)
    (hput : s.queue.put e = some queue) :
    { s with queue := queue, producer := producer, consumer := s.consumer.signal,
             accepted := s.accepted ++ [e] : System α }.Sound := by
  cases h with
  | whole left hend hlog hw hwait =>
    refine .whole (left ++ [e]) hend ?_ (hw.put hput) fun hc => absurd hc (Consumer.signal_ne _)
    rw [hlog, append_assoc]
  | cut front back hend hlog hc hwait =>
    have hpast := (System.notPast_iff_of_cut hend hlog).mp hok
    refine .cut front (back ++ [e]) hend ?_ (hc.put hpast hput)
      fun hc => absurd hc (Consumer.signal_ne _)
    rw [hlog, append_assoc, append_assoc]

/-- The ring grows, or is left as it is. -/
theorem System.Sound.increase (h : s.Sound) (size : Nat) : (s.step (.increase size)).Sound := by
  by_cases hsize : s.queue.qDepth < size
  · cases h with
    | whole left hend hlog hw hwait =>
      have hheld : s.held = left.length := by
        rw [System.held, hlog, length_append, Nat.add_sub_cancel_left]
      have hlast := mod_eq_of_lt hw.last_lt
      by_cases hcut : 0 < left.length ∧ s.queue.qDepth ≤ s.queue.qLast + left.length
      · have hnote : s.noteGrowth size =
            some (s.returned.length + (s.queue.qDepth - s.queue.qLast)) := by
          rw [System.noteGrowth, hheld, hlast, if_pos ⟨hend, hsize, hcut⟩]
        have htake : (left.take (s.queue.qDepth - s.queue.qLast)).length =
            s.queue.qDepth - s.queue.qLast := by
          rw [length_take]; omega
        refine .cut _ _ ?_ ?_ (hw.cut hsize hcut.2) fun hc => ?_
        · rw [htake]; exact hnote
        · rw [take_append_drop]; exact hlog
        · rw [take_append_drop]; exact hwait hc
      · have hnote : s.noteGrowth size = none := by
          rw [System.noteGrowth, hheld, hlast, if_neg fun hc => hcut hc.2.2, hend]
        refine .whole left hnote hlog (hw.increase hsize ?_) hwait
        rcases eq_nil_or_concat left with hnil | ⟨_, _, hne⟩
        · exact .inl hnil
        · simp_all
    | cut front back hend hlog hc hwait =>
      have hnote : s.noteGrowth size = s.oldEnd := by
        rw [System.noteGrowth, if_neg fun hn => by rw [hend] at hn; cases hn.1]
      exact .cut front back (hnote.trans hend) hlog (hc.increase hsize) hwait
  · have hnote : s.noteGrowth size = s.oldEnd := by
      rw [System.noteGrowth, if_neg fun hn => hsize hn.2.1]
    have hsame : s.step (.increase size) = s := by
      rw [System.step, increase_of_ge hsize, hnote]
    rw [hsame]
    exact h

/-- **Every step** from a state that is in order leads to a known layout. -/
theorem System.Sound.step (h : s.Sound) (hok : s.NotPast) (st : Step α) : (s.step st).Sound := by
  cases st with
  | enqueue e =>
    rw [System.step]
    split
    · split
      · exact h
      · exact h.of_eq rfl rfl rfl rfl rfl rfl .inl hok
    · exact h
  | attempt action =>
    rw [System.step]
    split
    · exact h
    · split
      · refine h.of_eq ?_ ?_ ?_ rfl rfl rfl .inl hok
        all_goals cases action <;> simp only [doOverflowAction]; split <;> rfl
      · split
        · rename_i hput
          exact h.put hok hput
        · exact h.of_eq rfl rfl rfl rfl rfl rfl .inl hok
  | dequeue dispHup =>
    rw [System.step]
    split
    · exact h
    · split
      · exact h
      · split
        · rename_i hnone
          exact h.of_eq rfl rfl rfl rfl rfl rfl (fun _ => .inr (isNone_iff_eq_none.mp hnone)) hok
        · exact h.finish hok
  | wake dispHup =>
    rw [System.step]
    split
    · exact h
    · split
      · exact h.of_eq rfl rfl rfl rfl rfl rfl (fun hw => by cases hw) hok
      · exact h.finish hok
  | nudge =>
    exact h.of_eq rfl rfl rfl rfl rfl rfl (fun hw => absurd hw (Consumer.signal_ne _)) hok
  | increase size => exact h.increase size
  | resume => exact h.of_eq rfl rfl rfl rfl rfl rfl .inl hok
  | reset => exact h.of_eq rfl rfl rfl rfl rfl rfl .inl hok

end Runs

/-- The layout is known at the end of a run that was in order at every moment before. -/
theorem sound_run (size : Nat) (h : 0 < size) (steps : List (Step α))
    (hok : ∀ before, before <+: steps → before ≠ steps → (run size h before).NotPast) :
    (run size h steps).Sound := by
  induction steps using List.reverseRecOn with
  | nil => exact System.sound_init size h
  | append_singleton steps st ih =>
    have hearlier : ∀ before, before <+: steps → (run size h before).NotPast := by
      intro before hb
      refine hok before (hb.trans (prefix_append _ _)) fun heq => ?_
      have := hb.length_le
      rw [heq, length_append, length_singleton] at this
      omega
    rw [run_append]
    exact (ih fun before hb _ => hearlier before hb).step (hearlier steps prefix_rfl) st

/-- **The queue to the plugins is in order** at every moment of a run if and only if at no moment
`dequeue` has come to an old end of the ring while there are events that were stored at its beginning:
events that were there when the ring grew, or that were accepted later. -/
theorem inOrder_iff_notPast (size : Nat) (h : 0 < size) (steps : List (Step α)) :
    (∀ before, before <+: steps → (run size h before).InOrder) ↔
      ∀ before, before <+: steps → (run size h before).NotPast := by
  constructor
  · intro hin before
    -- by induction on the length: up to here the layout is known, so here it decides
    induction hn : before.length using Nat.strong_induction_on generalizing before with
    | _ n ih =>
      intro hb
      refine (System.Sound.inOrder_iff (sound_run size h before fun b hbb hne => ?_)).mp (hin before hb)
      have hlt : b.length < n := by
        rw [← hn]
        exact lt_of_le_of_ne hbb.length_le fun heq => hne (hbb.eq_of_length heq)
      exact ih b.length hlt b rfl (hbb.trans hb)
  · intro hnot before hb
    refine (System.Sound.inOrder_iff (sound_run size h before fun b hbb _ => ?_)).mpr (hnot before hb)
    exact hnot b (hbb.trans hb)

/-- A run in which a ring of two slots wraps around, but does not grow. -/
theorem inOrder_iff_notPast_two :
    (∀ before, before <+: [.enqueue 7, .attempt .ignore, .dequeue false, .enqueue 8, .attempt .ignore] →
        (run 2 Nat.two_pos before : System Nat).InOrder) ↔
      ∀ before, before <+: [.enqueue 7, .attempt .ignore, .dequeue false, .enqueue 8, .attempt .ignore] →
        (run 2 Nat.two_pos before : System Nat).NotPast :=
  inOrder_iff_notPast 2 Nat.two_pos _

/-- Two events fill a ring of two slots, which then grows to three.  The third event is stored at the
beginning and stays there: `dequeue` looks for it at the new slot. -/
theorem stranded_by_growth :
    ¬ (run 2 Nat.two_pos [.enqueue 7, .attempt .ignore, .enqueue 8, .attempt .ignore, .increase 3,
      .dequeue false, .enqueue 9, .attempt .ignore, .dequeue false] : System Nat).InOrder := by
  rw [System.inOrder_iff (show _ = _ ++ [9] from rfl)]
  rintro (h | h)
  · cases h
  · cases h

end LibAudit.Audisp
