import LibAudit.Lib.Slots

/-!
# Slots in an array

The table of `Slots` as a program keeps it: an array that has room for more slots than are used, the
index `maxi` of the last slot that may be used, which is -1 at first, and a counter of the complete
events.  Loops over the events go up to `maxi` and do not see what is above.

As long as the array is `Consistent`, what they do is what the operations of `Slots` do to the array as
a table: an empty slot at the end of a table makes no difference to any of them.
-/

namespace Slots

open List Option Function
open List (replicate getElem?_append_left)

variable {K R : Type}

/-! ## Empty slots at the end of a table -/

theorem building_append (t u : Table K R) : building (t ++ u) = building t ++ building u :=
  filterMap_append

theorem finished_append (t u : Table K R) : finished (t ++ u) = finished t ++ finished u :=
  filterMap_append

@[simp] theorem building_replicate (k : Nat) :
    building (replicate k .empty : Table K R) = [] := by
  simp [building, filterMap_replicate, Slot.building?]

@[simp] theorem finished_replicate (k : Nat) :
    finished (replicate k .empty : Table K R) = [] := by
  simp [finished, filterMap_replicate, Slot.complete?]

@[simp] theorem check_replicate (done : K → List R → Bool) (k : Nat) :
    check done (replicate k .empty) = replicate k .empty := by
  simp [check, Slot.check]

theorem check_append (done : K → List R → Bool) (t u : Table K R) :
    check done (t ++ u) = check done t ++ check done u := map_append

theorem pending_append_replicate (t : Table K R) (k : Nat) :
    pending (t ++ replicate k .empty) = pending t := by
  simp [pending, building_append, finished_append]

theorem Every.append_replicate {P : K × List R → Prop} {t : Table K R} (h : Every P t) (k : Nat) :
    Every P (t ++ replicate k .empty) := by
  constructor
  · rw [building_append, building_replicate, append_nil]
    exact h.building
  · rw [finished_append, finished_replicate, append_nil]
    exact h.finished

theorem extend_replicate [DecidableEq K] (key : K) (item : R) (k : Nat) :
    extend key item (replicate k .empty) = none := by
  rw [extend_eq_none_iff, building_replicate]
  exact nofun

theorem extend_append_replicate [DecidableEq K] (key : K) (item : R) (t : Table K R) (k : Nat) :
    extend key item (t ++ replicate k .empty) =
      (extend key item t).map (· ++ replicate k .empty) := by
  induction t with
  | nil => exact extend_replicate key item k
  | cons s t ih =>
    cases s with
    | empty => simp [extend, ih, comp_def]
    | complete k items => simp [extend, ih, comp_def]
    | building k items =>
      rw [cons_append, extend, extend]
      split
      · rfl
      · simp [ih, comp_def]

variable {key : K} {item : R} {later : K → K → Bool}

theorem length_extend [DecidableEq K] {t t' : Table K R}
    (h : extend key item t = some t') : t'.length = t.length := by
  induction t generalizing t' with
  | nil => cases h
  | cons s t ih =>
    have hpass (h : (extend key item t).map (s :: ·) = some t') : t'.length = (s :: t).length := by
      obtain ⟨u, hu, rfl⟩ := map_eq_some_iff.mp h
      rw [length_cons, length_cons, ih hu]
    cases s with
    | empty => exact hpass h
    | complete k items => exact hpass h
    | building k items =>
      rw [extend] at h
      split at h
      · obtain ⟨⟩ := h
        rfl
      · exact hpass h

theorem lowest_replicate (later : K → K → Bool) (best : Option (Nat × K)) (i k : Nat) :
    lowest later best i (replicate k .empty : Table K R) = best := by
  induction k generalizing i with
  | zero => rfl
  | succ k ih => exact ih (i + 1)

theorem lowest_append_replicate (later : K → K → Bool) (best : Option (Nat × K)) (i : Nat)
    (t : Table K R) (k : Nat) :
    lowest later best i (t ++ replicate k .empty) = lowest later best i t := by
  induction t generalizing best i with
  | nil => exact lowest_replicate later best i k
  | cons s t ih => exact ih _ _

theorem takeReady_append_replicate (later : K → K → Bool) (t : Table K R) (k : Nat) :
    takeReady later (t ++ replicate k .empty) =
      (takeReady later t).map fun r => (r.1, r.2 ++ replicate k .empty) := by
  rw [takeReady, takeReady, lowest_append_replicate]
  cases hlow : lowest later none 0 t with
  | none => rfl
  | some r =>
    obtain ⟨n, s, hi, hs, -⟩ := (lowest_eq_some hlow).resolve_left nofun
    rw [Nat.zero_add] at hi
    subst hi
    have hn := (List.getElem?_eq_some_iff.mp hs).1
    simp only [getElem?_append_left hn, hs]
    cases s with
    | empty => rfl
    | building key items => rfl
    | complete key items => simp [set_append_left _ _ hn]

/-- The new event is in the same place, and there are no more empty slots in the end. -/
theorem insert_append_replicate (key : K) (item : R) (t : Table K R) (k : Nat) :
    ∃ k', insert key item (t ++ replicate k .empty) =
      insert key item t ++ replicate k' .empty := by
  induction t with
  | nil =>
    cases k with
    | zero => exact ⟨0, rfl⟩
    | succ k => exact ⟨k, rfl⟩
  | cons s t ih =>
    obtain ⟨k', hk'⟩ := ih
    cases s with
    | empty => exact ⟨k, rfl⟩
    | building key' items => exact ⟨k', congrArg (_ :: ·) hk'⟩
    | complete key' items => exact ⟨k', congrArg (_ :: ·) hk'⟩

/-! ## The array -/

/-- The array, with the index of the last slot that may be used and the number of complete events. -/
structure SlotArray (K R : Type) where
  array : Table K R
  maxi : Int
  ready : Int

/-- The slot has no event. -/
def Slot.isEmpty : Slot K R → Bool
  | empty => true
  | _ => false

namespace SlotArray

/-- An array of `n` empty slots. -/
def create (n : Nat) : SlotArray K R := ⟨replicate n .empty, -1, 0⟩

/-- The slots that a loop up to `maxi` goes through. -/
def used (a : SlotArray K R) : Table K R := a.array.take (a.maxi + 1).toNat

/-- The slots above `maxi`. -/
def above (a : SlotArray K R) : Table K R := a.array.drop (a.maxi + 1).toNat

/-- The slot for a new event: the first one that is empty, or the one behind the array. -/
def freeSlot (a : SlotArray K R) : Nat := a.array.findIdx Slot.isEmpty

/-- A new event.  If there is no empty slot, `n` are added to the array. -/
def append (n : Nat) (key : K) (item : R) (a : SlotArray K R) : SlotArray K R :=
  let i := a.freeSlot
  if i < a.array.length then
    { a with array := a.array.set i (.building key [item]), maxi := if a.maxi < i then i else a.maxi }
  else
    { a with
      array := a.array ++ .building key [item] :: replicate (n - 1) .empty
      maxi := i }

/-- The item goes to the event with this key, if it is being built. -/
def extend [DecidableEq K] (key : K) (item : R) (a : SlotArray K R) : Option (SlotArray K R) :=
  (Slots.extend key item a.used).map fun used => { a with array := used ++ a.above }

/-- A loop that completes the events for which `done` holds and counts them. -/
def checkLoop (done : K → List R → Bool) : Table K R → Int → Table K R × Int
  | [], ready => ([], ready)
  | .building key items :: t, ready =>
    if done key items then
      let r := checkLoop done t (ready + 1)
      (.complete key items :: r.1, r.2)
    else
      let r := checkLoop done t ready
      (.building key items :: r.1, r.2)
  | s :: t, ready =>
    let r := checkLoop done t ready
    (s :: r.1, r.2)

/-- Events for which `done` holds are complete. -/
def check (done : K → List R → Bool) (a : SlotArray K R) : SlotArray K R :=
  let r := checkLoop done a.used a.ready
  { a with array := r.1 ++ a.above, ready := r.2 }

/-- The event with the lowest key is taken out of its slot if it is complete. -/
def takeReady (later : K → K → Bool) (a : SlotArray K R) :
    Option (Nat × (K × List R) × SlotArray K R) :=
  if a.ready = 0 then none
  else
    match lowest later none 0 a.used with
    | none => none
    | some (i, _) =>
      match a.used[i]? with
      | some (.complete key items) =>
        some (i, (key, items), { a with array := a.array.set i .empty, ready := a.ready - 1 })
      | _ => none

/-- The first of the slots `m`, `m - 1`, … that is not empty, or slot 0. -/
def lastUsed (array : Table K R) : Nat → Nat
  | 0 => 0
  | m + 1 => if (array.getD (m + 1) .empty).isEmpty then lastUsed array m else m + 1

/-! ## Consistent arrays -/

/-- The counter is right, there is nothing above `maxi`, and no two events that are being built have
the same key. -/
structure Consistent (a : SlotArray K R) : Prop where
  ready : a.ready = (finished a.array).length
  above : ∀ i : Nat, a.maxi < i → ∀ s, a.array[i]? = some s → s = .empty
  lower : -1 ≤ a.maxi
  upper : a.maxi < a.array.length
  nodup : KeysNodup a.array

variable {a a' : SlotArray K R}

theorem used_append_above (a : SlotArray K R) : a.used ++ a.above = a.array := take_append_drop _ _

theorem consistent_create (n : Nat) : (create n : SlotArray K R).Consistent where
  ready := by simp [create]
  above i _ s hs := by
    exact eq_of_mem_replicate (mem_of_getElem? hs)
  lower := Int.le_refl _
  upper := by
    show (-1 : Int) < ((replicate n (Slot.empty : Slot K R)).length : Int)
    omega
  nodup := by simp [create, KeysNodup]

theorem insert_eq (key : K) (item : R) (t : Table K R) : insert key item t =
      if t.findIdx Slot.isEmpty < t.length then
        t.set (t.findIdx Slot.isEmpty) (.building key [item])
      else t ++ [.building key [item]] := by
  induction t with
  | nil => rfl
  | cons s t ih =>
    -- a slot that is not empty is passed over
    have hpass (hs : s.isEmpty = false) (hins : insert key item (s :: t) = s :: insert key item t) :
        insert key item (s :: t) =
          if (s :: t).findIdx Slot.isEmpty < (s :: t).length then
            (s :: t).set ((s :: t).findIdx Slot.isEmpty) (.building key [item])
          else s :: t ++ [.building key [item]] := by grind
    cases s with
    | empty => simp [insert, findIdx_cons, Slot.isEmpty]
    | building k items => exact hpass rfl rfl
    | complete k items => exact hpass rfl rfl

/-- A new event is where it is put in the table, with empty slots behind it if the array has grown. -/
theorem array_append (n : Nat) (key : K) (item : R) (a : SlotArray K R) :
    ∃ k, (a.append n key item).array = insert key item a.array ++ replicate k .empty := by
  rw [SlotArray.append, insert_eq, freeSlot]
  split
  · exact ⟨0, (append_nil _).symm⟩
  · exact ⟨n - 1, by simp⟩

theorem checkLoop_eq (done : K → List R → Bool) (t : Table K R) (ready : Int) : checkLoop done t ready =
      (Slots.check done t, ready + (finished (Slots.check done t)).length - (finished t).length) := by
  induction t generalizing ready with
  | nil => simp [checkLoop, Slots.check]
  | cons s t ih =>
    cases s with
    | empty => simp [checkLoop, ih, Slots.check, Slot.check, finished_cons, Slot.complete?]
    | complete key items =>
      simp [checkLoop, ih, Slots.check, Slot.check, finished_cons, Slot.complete?]
      omega
    | building key items =>
      rw [checkLoop]
      split
      · rename_i hdone
        simp [ih, Slots.check, Slot.check, hdone, finished_cons, Slot.complete?]
        omega
      · rename_i hdone
        simp [ih, Slots.check, Slot.check, hdone, finished_cons, Slot.complete?]

namespace Consistent

variable (h : a.Consistent)

include h

theorem above_eq : a.above = replicate a.above.length .empty := by
  refine eq_replicate_of_mem fun s hs => ?_
  obtain ⟨j, hj⟩ := mem_iff_getElem?.mp hs
  rw [SlotArray.above, List.getElem?_drop] at hj
  refine h.above _ ?_ s hj
  omega

/-- An array is its used slots, and empty ones. -/
theorem array_eq : a.array = a.used ++ replicate a.above.length .empty := by
  rw [← h.above_eq, used_append_above]

theorem length_used : (a.used.length : Int) = a.maxi + 1 := by
  have hlow := h.lower
  have hup := h.upper
  rw [used, length_take]
  omega

/-- A change to the used slots. -/
theorem update {used : Table K R} {ready : Int} (hlen : used.length = a.used.length)
    (hready : ready = (finished used).length)
    (hnodup : KeysNodup used) :
    ({ a with array := used ++ a.above, ready } : SlotArray K R).Consistent := by
  have hused := h.length_used
  have hsize : (used ++ a.above).length = a.array.length := by
    rw [length_append, hlen, ← length_append, used_append_above]
  refine ⟨?_, fun i hi s hs => ?_, h.lower, ?_, ?_⟩
  · rw [h.above_eq, finished_append, finished_replicate, append_nil]
    exact hready
  · have hi : a.maxi < i := hi
    rw [List.getElem?_append_right (by omega)] at hs
    rw [h.above_eq] at hs
    exact eq_of_mem_replicate (mem_of_getElem? hs)
  · rw [hsize]
    exact h.upper
  · rw [h.above_eq, KeysNodup, building_append, building_replicate, append_nil]
    exact hnodup

theorem nodup_used : KeysNodup a.used := by
  have hnodup := h.nodup
  rwa [KeysNodup, h.array_eq, building_append, building_replicate, append_nil] at hnodup

theorem finished_used : finished a.used = finished a.array := by
  rw [h.array_eq, finished_append, finished_replicate, append_nil]

/-! ### Adding to an event -/

theorem extend_eq [DecidableEq K] (key : K) (item : R) :
    (a.extend key item).map SlotArray.array = Slots.extend key item a.array := by
  rw [h.array_eq, extend_append_replicate, SlotArray.extend, Option.map_map, ← h.above_eq]
  rfl

theorem extend_none [DecidableEq K] (hext : a.extend key item = none) : ∀ e ∈ building a.array, e.1 ≠ key := by
  have heq := h.extend_eq key item
  rw [hext] at heq
  exact extend_eq_none_iff.mp heq.symm

theorem extend_some [DecidableEq K] (hext : a.extend key item = some a') :
    Slots.extend key item a.array = some a'.array := by
  rw [← h.extend_eq, hext]
  rfl

theorem extend [DecidableEq K] (hext : a.extend key item = some a') : a'.Consistent := by
  obtain ⟨used, hused, rfl⟩ := map_eq_some_iff.mp hext
  refine h.update (length_extend hused) ?_ (h.nodup_used.extend hused)
  rw [(extend_eq_some hused).1, h.finished_used]
  exact h.ready

/-! ### Completing events -/

theorem check_eq (done : K → List R → Bool) : (a.check done).array = Slots.check done a.array := by
  rw [h.array_eq, check_append, check_replicate, ← h.above_eq, SlotArray.check, checkLoop_eq]

theorem check (done : K → List R → Bool) : (a.check done).Consistent := by
  rw [SlotArray.check, checkLoop_eq]
  dsimp only
  refine h.update (length_map _) ?_ (h.nodup_used.check done)
  rw [h.ready, ← h.finished_used]
  omega

/-! ### Taking events out -/

theorem takeReady_eq (later : K → K → Bool) :
    (a.takeReady later).map (fun r => (r.2.1, r.2.2.array)) = Slots.takeReady later a.array := by
  rw [SlotArray.takeReady]
  split
  · cases htake : Slots.takeReady later a.array with
    | none => rfl
    | some r =>
      have hlen := (takeReady_eq_some htake).2.length_eq
      have hready := h.ready
      rw [length_cons] at hlen
      omega
  · rw [Slots.takeReady]
    have hlow : lowest later none 0 a.array = lowest later none 0 a.used := by
      rw [h.array_eq, lowest_append_replicate]
    rw [hlow]
    cases hused : lowest later none 0 a.used with
    | none => rfl
    | some r =>
      obtain ⟨n, s, hi, hs, hk⟩ := (lowest_eq_some hused).resolve_left nofun
      have harray : a.array[r.1]? = a.used[r.1]? := by
        rw [← a.used_append_above, hi, Nat.zero_add, getElem?_append_left]
        exact (List.getElem?_eq_some_iff.mp hs).1
      simp only [harray]
      cases a.used[r.1]? with
      | none => rfl
      | some s => cases s <;> rfl

/-- What is known when an event was taken out. -/
theorem takeReady {i : Nat} {e : K × List R} (htake : a.takeReady later = some (i, e, a')) :
    a'.Consistent ∧ a'.maxi = a.maxi ∧ i ≤ a.maxi ∧ a'.array = a.array.set i .empty ∧
      a.array[i]? = some (.complete e.1 e.2) := by
  rw [SlotArray.takeReady] at htake
  split at htake
  · cases htake
  · split at htake
    · cases htake
    · split at htake
      · rename_i j k hlow key items hslot
        obtain ⟨⟩ := htake
        have hi := (List.getElem?_eq_some_iff.mp hslot).1
        have hused := h.length_used
        have harray : a.array[i]? = some (.complete key items) := by
          rw [← a.used_append_above, getElem?_append_left hi]
          exact hslot
        have hset : a.array.set i .empty = a.used.set i .empty ++ a.above := by
          nth_rewrite 1 [← a.used_append_above]
          rw [set_append_left _ _ hi]
        refine ⟨?_, rfl, by omega, rfl, harray⟩
        rw [hset]
        refine h.update length_set ?_ ?_
        · have hlen := (set_empty_spec hslot).2.length_eq
          rw [length_cons, h.finished_used] at hlen
          rw [h.ready]
          omega
        · rw [KeysNodup, (set_empty_spec hslot).1]
          exact h.nodup_used
      · cases htake

omit h in
/-- The slots that are passed over are empty. -/
theorem lastUsed_spec (array : Table K R) (m : Nat) :
    lastUsed array m ≤ m ∧ ∀ i, lastUsed array m < i → i ≤ m → array.getD i .empty = .empty := by
  induction m with
  | zero => exact ⟨Nat.le_refl 0, fun i h h' => absurd h' (by omega)⟩
  | succ m ih =>
    rw [lastUsed]
    split
    · rename_i hempty
      refine ⟨by omega, fun i hi hm => ?_⟩
      rcases Nat.lt_or_eq_of_le hm with hm | rfl
      · exact ih.2 i hi (by omega)
      · generalize array.getD (m + 1) .empty = s at hempty ⊢
        cases s with
        | empty => rfl
        | building key items => cases hempty
        | complete key items => cases hempty
    · exact ⟨Nat.le_refl _, fun i hi hm => absurd hm (by omega)⟩

theorem lastUsed (hmaxi : 0 ≤ a.maxi) :
    ({ a with maxi := lastUsed a.array a.maxi.toNat } : SlotArray K R).Consistent := by
  obtain ⟨hle, hempty⟩ := lastUsed_spec a.array a.maxi.toNat
  have hup := h.upper
  refine ⟨h.ready, fun i hi s hs => ?_, ?_, ?_, h.nodup⟩
  · have hi : (SlotArray.lastUsed a.array a.maxi.toNat : Int) < i := hi
    rcases Nat.lt_or_ge a.maxi.toNat i with hlt | hge
    · exact h.above i (by omega) s hs
    · have := hempty i (by omega) hge
      rwa [getD_eq_getElem?_getD, hs, getD_some] at this
  · simp
  · show (SlotArray.lastUsed a.array a.maxi.toNat : Int) < a.array.length
    omega

/-! ### New events -/

theorem append (n : Nat) (item : R)
    (hkey : ∀ e ∈ building a.array, e.1 ≠ key) : (a.append n key item).Consistent := by
  obtain ⟨k, hk⟩ := array_append n key item a
  have hfin : finished (a.append n key item).array = finished a.array := by
    rw [hk, finished_append, finished_replicate, append_nil, finished_insert]
  have hready : (a.append n key item).ready = a.ready := by
    rw [SlotArray.append]
    split <;> rfl
  refine ⟨by rw [hready, hfin, h.ready], ?_, ?_, ?_, ?_⟩
  · intro i hi s hs
    rw [SlotArray.append] at hi hs
    split at hi
    · rename_i hlt
      rw [if_pos hlt] at hs
      dsimp only at hi hs
      rw [List.getElem?_set_ne (by split at hi <;> omega)] at hs
      exact h.above i (by split at hi <;> omega) s hs
    · rename_i hge
      rw [if_neg hge] at hs
      dsimp only at hi hs
      rw [List.getElem?_append_right (by omega)] at hs
      rcases hj : i - a.array.length with _ | j
      · rw [freeSlot] at hi hge
        omega
      · rw [hj, List.getElem?_cons_succ] at hs
        exact eq_of_mem_replicate (mem_of_getElem? hs)
  · rw [SlotArray.append]
    split <;> dsimp only
    · split <;> omega
    · omega
  · have hup := h.upper
    rw [SlotArray.append]
    split <;> dsimp only
    · rw [length_set]
      split <;> omega
    · have hfree : a.array.findIdx Slot.isEmpty ≤ a.array.length := findIdx_le_length
      rw [freeSlot, length_append, length_cons]
      omega
  · rw [KeysNodup, hk, building_append, building_replicate, append_nil]
    exact h.nodup.insert item hkey

end Consistent

/-! ## The table that an array stands for -/

/-- The array is the table, with empty slots behind it. -/
def Shows (a : SlotArray K R) (t : Table K R) : Prop :=
  ∃ k, a.array = t ++ replicate k .empty

namespace Shows

variable {t t' : Table K R}

theorem create (n : Nat) : (create n : SlotArray K R).Shows [] := ⟨n, rfl⟩

theorem extend_none [DecidableEq K] (h : a.Shows t) (ha : a.Consistent)
    (hext : a.extend key item = none) : Slots.extend key item t = none := by
  obtain ⟨k, hk⟩ := h
  have heq := ha.extend_eq key item
  rw [hext, hk, extend_append_replicate] at heq
  exact map_eq_none_iff.mp heq.symm

theorem extend_some [DecidableEq K] (h : a.Shows t) (ha : a.Consistent)
    (hext : a.extend key item = some a') : ∃ t', Slots.extend key item t = some t' ∧ a'.Shows t' := by
  obtain ⟨k, hk⟩ := h
  have heq := ha.extend_eq key item
  rw [hext, hk, extend_append_replicate] at heq
  obtain ⟨t', ht', happ⟩ := map_eq_some_iff.mp heq.symm
  exact ⟨t', ht', k, happ.symm⟩

theorem append (h : a.Shows t) (n : Nat) (key : K) (item : R) :
    (a.append n key item).Shows (insert key item t) := by
  obtain ⟨k, hk⟩ := h
  obtain ⟨k₁, hk₁⟩ := array_append n key item a
  obtain ⟨k₂, hk₂⟩ := insert_append_replicate key item t k
  refine ⟨k₂ + k₁, ?_⟩
  rw [hk₁, hk, hk₂, append_assoc, replicate_append_replicate]

theorem check (h : a.Shows t) (ha : a.Consistent) (done : K → List R → Bool) :
    (a.check done).Shows (Slots.check done t) := by
  obtain ⟨k, hk⟩ := h
  refine ⟨k, ?_⟩
  rw [ha.check_eq, hk, check_append, check_replicate]

theorem takeReady_none (h : a.Shows t)
    (htake : Slots.takeReady later a.array = none) : Slots.takeReady later t = none := by
  obtain ⟨k, hk⟩ := h
  rw [hk, takeReady_append_replicate] at htake
  exact map_eq_none_iff.mp htake

theorem takeReady_some {e : K × List R} (h : a.Shows t)
    (htake : Slots.takeReady later a.array = some (e, a'.array)) :
    ∃ t', Slots.takeReady later t = some (e, t') ∧ a'.Shows t' := by
  obtain ⟨k, hk⟩ := h
  rw [hk, takeReady_append_replicate] at htake
  obtain ⟨⟨e', t'⟩, ht', happ⟩ := map_eq_some_iff.mp htake
  injection happ with he happ
  subst he
  exact ⟨t', ht', k, happ.symm⟩

end Shows

end SlotArray

end Slots
