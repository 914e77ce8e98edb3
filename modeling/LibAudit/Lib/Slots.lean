import Mathlib.Data.List.Perm.Basic
import Mathlib.Data.List.Nodup

/-!
# Events assembled in slots

Items arrive one after another, each with the key of the event it belongs to.  An event is built in a
slot of a table: an item goes to the slot in which the event with its key is being built, or into an
empty slot if there is none.  At some point the event is complete; it stays in its slot, and takes no
more items, until it is taken out, the lowest key first and only if that event is complete.

Where in the table an event is built does not matter, and neither does when it is taken out: the
events being built are the same, and so are the complete ones together with those taken out.
`Similar` is that relation, between a table and a table from which nothing is ever taken, and each
operation preserves it.
-/

namespace Slots

open List

variable {K R : Type}

/-- A slot, and the event in it. -/
inductive Slot (K R : Type)
  | empty
  | building (key : K) (items : List R)
  | complete (key : K) (items : List R)
  deriving DecidableEq

/-- All slots that have been used. -/
abbrev Table (K R : Type) := List (Slot K R)

namespace Slot

/-- The event, if it is being built. -/
def building? : Slot K R → Option (K × List R)
  | building key items => some (key, items)
  | _ => none

/-- The event, if it is complete. -/
def complete? : Slot K R → Option (K × List R)
  | complete key items => some (key, items)
  | _ => none

/-- The key of the event, if there is one. -/
def key? : Slot K R → Option K
  | empty => none
  | building key _ => some key
  | complete key _ => some key

/-- The event is complete if `done` says so. -/
def check (done : K → List R → Bool) : Slot K R → Slot K R
  | building key items => if done key items then complete key items else building key items
  | s => s

end Slot

/-- The events that are being built. -/
def building (t : Table K R) : List (K × List R) := t.filterMap Slot.building?

/-- The complete events. -/
def finished (t : Table K R) : List (K × List R) := t.filterMap Slot.complete?

/-- The item goes to the event with this key, if it is being built. -/
def extend [DecidableEq K] (key : K) (item : R) : Table K R → Option (Table K R)
  | [] => none
  | .building k items :: t =>
    if k = key then some (.building k (items ++ [item]) :: t)
    else (extend key item t).map (.building k items :: ·)
  | s :: t => (extend key item t).map (s :: ·)

/-- A new event in the first empty slot. -/
def insert (key : K) (item : R) : Table K R → Table K R
  | [] => [.building key [item]]
  | .empty :: t => .building key [item] :: t
  | s :: t => s :: insert key item t

/-- Events for which `done` holds are complete. -/
def check (done : K → List R → Bool) (t : Table K R) : Table K R := t.map (Slot.check done)

/-- All events are complete. -/
def terminate (t : Table K R) : Table K R := check (fun _ _ => true) t

/-- The better of `best` and the event in slot `i`: the one with the lower key. -/
def better (later : K → K → Bool) (best : Option (Nat × K)) (i : Nat) (s : Slot K R) :
    Option (Nat × K) :=
  match s.key?, best with
  | none, best => best
  | some k, none => some (i, k)
  | some k, some (j, b) => if later b k then some (i, k) else some (j, b)

/-- The first slot with the lowest key, if `best` is that of the slots before number `i`. -/
def lowest (later : K → K → Bool) : Option (Nat × K) → Nat → Table K R → Option (Nat × K)
  | best, _, [] => best
  | best, i, s :: t => lowest later (better later best i s) (i + 1) t

/-- The event with the lowest key is taken out if it is complete. -/
def takeReady (later : K → K → Bool) (t : Table K R) : Option ((K × List R) × Table K R) :=
  match lowest later none 0 t with
  | none => none
  | some (i, _) =>
    match t[i]? with
    | some (.complete key items) => some ((key, items), t.set i .empty)
    | _ => none

/-! ## What the operations do to the events -/

@[simp] theorem building_nil : building ([] : Table K R) = [] := rfl

@[simp] theorem finished_nil : finished ([] : Table K R) = [] := rfl

theorem building_cons (s : Slot K R) (t : Table K R) :
    building (s :: t) = s.building?.toList ++ building t := by
  cases s <;> rfl

theorem finished_cons (s : Slot K R) (t : Table K R) :
    finished (s :: t) = s.complete?.toList ++ finished t := by
  cases s <;> rfl

section Extend

variable [DecidableEq K] {key : K} {item : R}

theorem extend_eq_none_iff {t : Table K R} : extend key item t = none ↔ ∀ e ∈ building t, e.1 ≠ key := by
  induction t with
  | nil => simp [extend]
  | cons s t ih =>
    cases s with
    | building k items =>
      rw [extend, building_cons]
      by_cases hk : k = key
      · simp [hk, Slot.building?]
      · simp [hk, ih, Slot.building?]
    | empty => simpa [extend, building_cons, Slot.building?] using ih
    | complete k items => simpa [extend, building_cons, Slot.building?] using ih

/-- The item is added to one event, which is being built, and nothing else happens. -/
theorem extend_eq_some {t t' : Table K R} (h : extend key item t = some t') :
    finished t' = finished t ∧ ∃ pre items post,
      building t = pre ++ (key, items) :: post ∧
        building t' = pre ++ (key, items ++ [item]) :: post := by
  induction t generalizing t' with
  | nil => cases h
  | cons s t ih =>
    -- a slot that is passed over stays as it is
    have hpass {s : Slot K R} (h : (extend key item t).map (s :: ·) = some t') :
        finished t' = finished (s :: t) ∧ ∃ pre items post,
          building (s :: t) = pre ++ (key, items) :: post ∧
            building t' = pre ++ (key, items ++ [item]) :: post := by
      obtain ⟨u, hu, rfl⟩ := Option.map_eq_some_iff.mp h
      obtain ⟨hfin, pre, items, post, hb, hb'⟩ := ih hu
      refine ⟨by rw [finished_cons, finished_cons, hfin], s.building?.toList ++ pre, items, post, ?_, ?_⟩
      · rw [building_cons, hb, append_assoc]
      · rw [building_cons, hb', append_assoc]
    cases s with
    | building k items =>
      rw [extend] at h
      split at h
      · rename_i hk
        injection h with h
        subst h hk
        exact ⟨rfl, [], items, building t, rfl, rfl⟩
      · exact hpass h
    | empty => exact hpass h
    | complete k items => exact hpass h

end Extend

theorem finished_insert (key : K) (item : R) (t : Table K R) :
    finished (insert key item t) = finished t := by
  induction t with
  | nil => rfl
  | cons s t ih =>
    cases s with
    | empty => rfl
    | building k items => exact ih
    | complete k items => exact congrArg ((k, items) :: ·) ih

theorem building_insert (key : K) (item : R) (t : Table K R) :
    (building (insert key item t)).Perm ((key, [item]) :: building t) := by
  induction t with
  | nil => exact .refl _
  | cons s t ih =>
    cases s with
    | empty => exact .refl _
    | building k items => exact (ih.cons (k, items)).trans (.swap _ _ _)
    | complete k items => exact ih

theorem building_check (done : K → List R → Bool) (t : Table K R) :
    building (check done t) = (building t).filter fun e => !done e.1 e.2 := by
  induction t with
  | nil => rfl
  | cons s t ih =>
    cases s with
    | empty => exact ih
    | complete k items => exact ih
    | building k items =>
      rw [building_cons, filter_append, ← ih]
      cases hd : done k items <;> simp [check, Slot.check, hd, building_cons, Slot.building?]

theorem finished_check (done : K → List R → Bool) (t : Table K R) :
    (finished (check done t)).Perm (finished t ++ (building t).filter fun e => done e.1 e.2) := by
  induction t with
  | nil => exact .refl _
  | cons s t ih =>
    cases s with
    | empty => exact ih
    | complete k items => exact ih.cons _
    | building k items =>
      cases hd : done k items
      · simpa [check, Slot.check, hd, building_cons, finished_cons, Slot.building?,
          Slot.complete?] using ih
      · have : (finished (check done (.building k items :: t))).Perm
            ((k, items) :: (finished t ++ (building t).filter fun e => done e.1 e.2)) := by
          simpa [check, Slot.check, hd, finished_cons, Slot.complete?] using ih
        refine this.trans ?_
        simpa [building_cons, finished_cons, Slot.building?, Slot.complete?, hd] using perm_middle.symm

theorem building_terminate (t : Table K R) : building (terminate t) = [] := by
  rw [terminate, building_check]
  simp

theorem finished_terminate (t : Table K R) :
    (finished (terminate t)).Perm (finished t ++ building t) := by
  have := finished_check (fun _ _ => true) t
  simpa [terminate] using this

theorem terminate_of_building_eq_nil {t : Table K R} (h : building t = []) : terminate t = t := by
  refine (map_congr_left fun s hs => ?_).trans (map_id t)
  have hnone := filterMap_eq_nil_iff.mp h s hs
  cases s with
  | empty => rfl
  | complete k items => rfl
  | building k items => cases hnone

/-! ## Taking events out -/

/-- The better one is one of the two. -/
theorem better_cases (later : K → K → Bool) (best : Option (Nat × K)) (i : Nat) (s : Slot K R) :
    better later best i s = best ∨ ∃ k, s.key? = some k ∧ better later best i s = some (i, k) := by
  unfold better
  grind

variable {i : Nat} {best : Option (Nat × K)} {e : K × List R}

theorem lowest_eq_some {later : K → K → Bool} {t : Table K R} {j : Nat}
    {k : K} (h : lowest later best i t = some (j, k)) :
    best = some (j, k) ∨ ∃ n s, j = i + n ∧ t[n]? = some s ∧ s.key? = some k := by
  induction t generalizing best i with
  | nil => exact .inl h
  | cons s t ih =>
    rcases ih h with hbest | ⟨n, s', hj, hs', hk⟩
    · rcases better_cases later best i s with hb | ⟨k', hk', hb⟩
      · exact .inl (hb.symm.trans hbest)
      · simp_all
    · exact .inr ⟨n + 1, s', by omega, hs', hk⟩

theorem better_eq_none {later : K → K → Bool} {s : Slot K R}
    (h : better later best i s = none) : best = none ∧ s.key? = none := by
  unfold better at h
  split at h
  · rename_i hk
    exact ⟨h, hk⟩
  · cases h
  · split at h
    · cases h
    · cases h

theorem lowest_eq_none {later : K → K → Bool} {t : Table K R}
    (h : lowest later best i t = none) : best = none ∧ ∀ s ∈ t, s.key? = none := by
  induction t generalizing best i with
  | nil => exact ⟨h, fun _ hs => absurd hs not_mem_nil⟩
  | cons s t ih =>
    obtain ⟨hbest, ht⟩ := ih h
    obtain ⟨hbest, hs⟩ := better_eq_none hbest
    simp_all

theorem set_empty_spec {t : Table K R} {key : K} {items : List R} (h : t[i]? = some (.complete key items)) :
    building (t.set i .empty) = building t ∧
      (finished t).Perm ((key, items) :: finished (t.set i .empty)) := by
  induction t generalizing i with
  | nil => cases h
  | cons s t ih =>
    cases i with
    | zero =>
      rw [getElem?_cons_zero] at h
      injection h with h
      rw [h]
      exact ⟨rfl, .refl _⟩
    | succ i =>
      rw [getElem?_cons_succ] at h
      rw [set_cons_succ, building_cons, building_cons, finished_cons, finished_cons, (ih h).1]
      exact ⟨rfl, ((ih h).2.append_left _).trans perm_middle⟩

theorem takeReady_cases {later : K → K → Bool} {t t' : Table K R}
    (h : takeReady later t = some (e, t')) :
    ∃ i, lowest later none 0 t = some (i, e.1) ∧ t[i]? = some (.complete e.1 e.2) ∧
      t' = t.set i .empty := by
  unfold takeReady at h
  split at h
  · cases h
  · rename_i i k hlow
    split at h
    · rename_i key items hslot
      obtain ⟨n, s, hi, hs, hk⟩ := (lowest_eq_some hlow).resolve_left nofun
      rw [Nat.zero_add] at hi
      subst hi
      obtain ⟨⟩ := hs.symm.trans hslot
      obtain ⟨⟩ := hk
      obtain ⟨⟩ := h
      exact ⟨i, hlow, hslot, rfl⟩
    · cases h

theorem takeReady_eq_some {later : K → K → Bool} {t t' : Table K R}
    (h : takeReady later t = some (e, t')) :
    building t' = building t ∧ (finished t).Perm (e :: finished t') := by
  obtain ⟨i, -, hslot, rfl⟩ := takeReady_cases h
  exact set_empty_spec hslot

theorem finished_eq_nil {later : K → K → Bool} {t : Table K R} (h : takeReady later t = none)
    (hb : building t = []) : finished t = [] := by
  unfold takeReady at h
  split at h
  · rename_i hnone
    rw [finished, filterMap_eq_nil_iff]
    intro s hs
    have := (lowest_eq_none hnone).2 s hs
    cases s with
    | empty => rfl
    | building k items => cases this
    | complete k items => cases this
  · rename_i i k hlow
    obtain ⟨n, s, hi, hs, hk⟩ := (lowest_eq_some hlow).resolve_left nofun
    rw [Nat.zero_add] at hi
    subst hi
    rw [hs] at h
    cases s with
    | empty => cases hk
    | complete k items => cases h
    | building k items =>
      have hmem : (k, items) ∈ building t := mem_filterMap.mpr ⟨_, mem_of_getElem? hs, rfl⟩
      rw [hb] at hmem
      exact absurd hmem not_mem_nil

/-! ## Items -/

/-- All items in the table. -/
def pending (t : Table K R) : List R :=
  (finished t).flatMap Prod.snd ++ (building t).flatMap Prod.snd

theorem pending_extend [DecidableEq K] {t t' : Table K R} {key : K} {item : R}
    (h : extend key item t = some t') : (pending t').Perm (pending t ++ [item]) := by
  obtain ⟨hfin, pre, items, post, hb, hb'⟩ := extend_eq_some h
  rw [pending, pending, hfin, hb, hb', append_assoc]
  refine .append_left _ ?_
  simp only [flatMap_append, flatMap_cons, append_assoc]
  refine .append_left _ (.append_left _ ?_)
  exact perm_append_comm

theorem pending_insert (t : Table K R) (key : K) (item : R) :
    (pending (insert key item t)).Perm (pending t ++ [item]) := by
  rw [pending, pending, finished_insert, append_assoc]
  refine .append_left _ (((building_insert key item t).flatMap_right _).trans ?_)
  exact perm_append_comm

theorem pending_check (done : K → List R → Bool) (t : Table K R) :
    (pending (check done t)).Perm (pending t) := by
  have hsplit := filter_append_perm (fun l : K × List R => done l.1 l.2) (building t)
  rw [pending, pending, building_check]
  refine (((finished_check done t).flatMap_right _).append_right _).trans ?_
  simp only [flatMap_append, append_assoc]
  refine .append_left _ ?_
  rw [← flatMap_append]
  exact hsplit.flatMap_right _

theorem pending_takeReady {later : K → K → Bool} {t t' : Table K R} {l : K × List R}
    (h : takeReady later t = some (l, t')) : (l.2 ++ pending t').Perm (pending t) := by
  obtain ⟨hb, hfin⟩ := takeReady_eq_some h
  rw [pending, pending, hb, ← append_assoc]
  exact (hfin.flatMap_right _).symm.append_right _

/-! ## Facts about every event -/

/-- Every event in the table, complete or not, satisfies `P`. -/
structure Every (P : K × List R → Prop) (t : Table K R) : Prop where
  building : ∀ e ∈ building t, P e
  finished : ∀ e ∈ finished t, P e

namespace Every

variable {P : K × List R → Prop} {t t' : Table K R}

theorem nil : Every P ([] : Table K R) := ⟨nofun, nofun⟩

theorem mono {Q : K × List R → Prop} (h : Every P t) (hPQ : ∀ e, P e → Q e) : Every Q t :=
  ⟨fun e he => hPQ e (h.building e he), fun e he => hPQ e (h.finished e he)⟩

theorem extend_imp [DecidableEq K] {Q : K × List R → Prop} {key : K} {item : R} (h : Every P t)
    (ht : extend key item t = some t') (hPQ : ∀ e, P e → Q e)
    (hQ : ∀ items, P (key, items) → Q (key, items ++ [item])) : Every Q t' := by
  obtain ⟨hfin, pre, items, post, hb, hb'⟩ := extend_eq_some ht
  refine ⟨fun e he => ?_, fun e he => hPQ e (h.finished e (hfin ▸ he))⟩
  have hold := h.building
  rw [hb] at hold
  rw [hb'] at he
  simp only [mem_append, mem_cons] at hold he
  rcases he with he | rfl | he
  · exact hPQ e (hold e (.inl he))
  · exact hQ items (hold _ (.inr (.inl rfl)))
  · exact hPQ e (hold e (.inr (.inr he)))

theorem extend [DecidableEq K] {key : K} {item : R} (h : Every P t)
    (ht : extend key item t = some t') (hP : ∀ items, P (key, items) → P (key, items ++ [item])) :
    Every P t' :=
  h.extend_imp ht (fun _ => id) hP

theorem insert {key : K} {item : R} (h : Every P t) (hP : P (key, [item])) :
    Every P (insert key item t) := by
  refine ⟨fun e he => ?_, fun e he => h.finished e (finished_insert key item t ▸ he)⟩
  rcases mem_cons.mp ((building_insert key item t).mem_iff.mp he) with rfl | he
  · exact hP
  · exact h.building e he

theorem check (h : Every P t) (done : K → List R → Bool) : Every P (check done t) := by
  refine ⟨fun e he => ?_, fun e he => ?_⟩
  · rw [building_check] at he
    exact h.building e (mem_of_mem_filter he)
  · rcases mem_append.mp ((finished_check done t).mem_iff.mp he) with he | he
    · exact h.finished e he
    · exact h.building e (mem_of_mem_filter he)

theorem takeReady {later : K → K → Bool} (h : Every P t)
    (ht : takeReady later t = some (e, t')) : P e ∧ Every P t' := by
  obtain ⟨hb, hfin⟩ := takeReady_eq_some ht
  refine ⟨h.finished e (hfin.mem_iff.mpr mem_cons_self), fun e' he' => ?_, fun e' he' => ?_⟩
  · exact h.building e' (hb ▸ he')
  · exact h.finished e' (hfin.mem_iff.mpr (mem_cons_of_mem _ he'))

end Every

/-! ## The order in which events are taken out -/

section Order

variable {later : K → K → Bool}

/-- What is needed of `later`: not being later is a total preorder. -/
structure LaterOrder (later : K → K → Bool) : Prop where
  irrefl : ∀ a, later a a = false
  trans : ∀ a b c, later a b = false → later b c = false → later a c = false
  asymm : ∀ a b, later a b = true → later b a = false

variable (hlater : LaterOrder later)

include hlater

theorem better_le {j : Nat} {s : Slot K R} {b k : K}
    (h : better later best i s = some (j, b)) (hk : (∃ n, best = some (n, k)) ∨ s.key? = some k) :
    later b k = false := by
  unfold better at h
  split at h
  · rename_i hnone
    rcases hk with ⟨n, hn⟩ | hk
    · obtain ⟨⟩ := hn.symm.trans h
      exact hlater.irrefl _
    · cases (hnone.symm.trans hk)
  · rename_i k' hk'
    injection h with h
    injection h with _ hb
    subst hb
    obtain ⟨⟩ := hk'.symm.trans (hk.resolve_left nofun)
    exact hlater.irrefl _
  · rename_i k' n' b' hk'
    split at h
    · rename_i hlt
      injection h with h
      injection h with _ hb
      subst hb
      rcases hk with ⟨n, hn⟩ | hk
      · obtain ⟨⟩ := hn
        exact hlater.asymm _ _ hlt
      · obtain ⟨⟩ := hk'.symm.trans hk
        exact hlater.irrefl _
    · rename_i hle
      injection h with h
      injection h with _ hb
      subst hb
      rcases hk with ⟨n, hn⟩ | hk
      · obtain ⟨⟩ := hn
        exact hlater.irrefl _
      · simp_all

/-- The lowest key is not later than any other. -/
theorem lowest_le {t : Table K R} {j : Nat} {b k : K} (h : lowest later best i t = some (j, b))
    (hk : (∃ n, best = some (n, k)) ∨ ∃ s ∈ t, s.key? = some k) : later b k = false := by
  induction t generalizing best i k with
  | nil =>
    obtain ⟨n, hn⟩ := hk.resolve_right fun ⟨_, hs, _⟩ => not_mem_nil hs
    obtain ⟨⟩ := hn.symm.trans h
    exact hlater.irrefl _
  | cons s t ih =>
    by_cases ht : ∃ s' ∈ t, s'.key? = some k
    · exact ih h (.inr ht)
    -- the key is that of `best` or of the first slot, and the better of the two is not later
    have hhere : (∃ n, best = some (n, k)) ∨ s.key? = some k := by simp_all
    cases hb : better later best i s with
    | none =>
      obtain ⟨hn, hs⟩ := better_eq_none hb
      simp_all
    | some c =>
      have h₁ := ih h (k := c.2) (.inl ⟨c.1, hb⟩)
      exact hlater.trans _ _ _ h₁ (better_le hlater hb hhere)

theorem takeReady_le {t t' : Table K R} {e' : K × List R} (h : takeReady later t = some (e, t'))
    (he' : e' ∈ building t ∨ e' ∈ finished t) : later e.1 e'.1 = false := by
  have hkey : ∃ s ∈ t, s.key? = some e'.1 := by
    rcases he' with he' | he' <;> obtain ⟨s, hs, hb⟩ := mem_filterMap.mp he'
    · refine ⟨s, hs, ?_⟩
      cases s with
      | building k items => exact congrArg (·.map Prod.fst) hb
      | empty => cases hb
      | complete k items => cases hb
    · refine ⟨s, hs, ?_⟩
      cases s with
      | complete k items => exact congrArg (·.map Prod.fst) hb
      | empty => cases hb
      | building k items => cases hb
  obtain ⟨i, hlow, -, -⟩ := takeReady_cases h
  exact lowest_le hlater hlow (.inr hkey)

end Order

/-! ## Tables that hold the same events -/

/-- The keys of the events being built are different. -/
def KeysNodup (t : Table K R) : Prop := ((building t).map Prod.fst).Nodup

namespace KeysNodup

variable {t t' : Table K R} {key : K}

theorem check (h : KeysNodup t) (done : K → List R → Bool) : KeysNodup (check done t) := by
  rw [KeysNodup, building_check]
  exact h.sublist (filter_sublist.map _)

theorem insert (h : KeysNodup t) (item : R) (hkey : ∀ e ∈ building t, e.1 ≠ key) :
    KeysNodup (insert key item t) := by
  rw [KeysNodup, ((building_insert key item t).map _).nodup_iff, map_cons, nodup_cons]
  refine ⟨fun hmem => ?_, h⟩
  obtain ⟨e, he, hk⟩ := mem_map.mp hmem
  exact hkey e he hk

theorem extend [DecidableEq K] {item : R} (h : KeysNodup t) (ht : extend key item t = some t') :
    KeysNodup t' := by
  obtain ⟨-, pre, items, post, hb, hb'⟩ := extend_eq_some ht
  rw [KeysNodup, hb, map_append, map_cons] at h
  rwa [KeysNodup, hb', map_append, map_cons]

end KeysNodup

/-- `t`, from which `out` was taken, and `T`, from which nothing was, hold the same events. -/
structure Similar (out : List (K × List R)) (t T : Table K R) : Prop where
  building : (building t).Perm (building T)
  finished : (out ++ finished t).Perm (finished T)
  nodup : KeysNodup T

namespace Similar

variable {out : List (K × List R)} {t T : Table K R}

theorem check (h : Similar out t T) (done : K → List R → Bool) :
    Similar out (check done t) (check done T) where
  building := by
    rw [building_check, building_check]
    exact h.building.filter _
  finished := by
    refine ((finished_check done t).append_left out).trans ?_
    rw [← append_assoc]
    exact (h.finished.append (h.building.filter _)).trans (finished_check done T).symm
  nodup := h.nodup.check done

theorem terminate (h : Similar out t T) : Similar out (terminate t) (terminate T) := h.check _

theorem takeReady (h : Similar out t T) {later : K → K → Bool} {t' : Table K R}
    (ht : takeReady later t = some (e, t')) : Similar (out ++ [e]) t' T where
  building := (takeReady_eq_some ht).1 ▸ h.building
  finished := by
    rw [append_assoc]
    exact ((takeReady_eq_some ht).2.symm.append_left out).trans h.finished
  nodup := h.nodup

theorem insert (h : Similar out t T) {key : K} (item : R) (hkey : ∀ e ∈ Slots.building T, e.1 ≠ key) :
    Similar out (insert key item t) (insert key item T) where
  building := (building_insert key item t).trans
    ((h.building.cons _).trans (building_insert key item T).symm)
  finished := by
    rw [finished_insert, finished_insert]
    exact h.finished
  nodup := h.nodup.insert item hkey

section Extend

variable [DecidableEq K] {key : K} {item : R}

theorem extend_eq_none (h : Similar out t T) (ht : extend key item t = none) :
    extend key item T = none := by
  rw [extend_eq_none_iff] at ht ⊢
  exact fun e he => ht e (h.building.mem_iff.mpr he)

/-- The item goes to the same event in both tables, because there is only one with its key. -/
theorem extend_eq_some (h : Similar out t T) {t' : Table K R} (ht : extend key item t = some t') :
    ∃ T', extend key item T = some T' ∧ Similar out t' T' := by
  obtain ⟨hfin, pre, items, post, hb, hb'⟩ := Slots.extend_eq_some ht
  have hmem : (key, items) ∈ Slots.building T :=
    h.building.mem_iff.mp (hb ▸ mem_append_right _ mem_cons_self)
  cases hT : extend key item T with
  | none => exact absurd rfl (extend_eq_none_iff.mp hT _ hmem)
  | some T' =>
    obtain ⟨hfinT, preT, itemsT, postT, hbT, hbT'⟩ := Slots.extend_eq_some hT
    have hmemT : (key, itemsT) ∈ Slots.building T := hbT ▸ mem_append_right _ mem_cons_self
    have hitems : items = itemsT := by
      have := inj_on_of_nodup_map h.nodup hmem hmemT rfl
      injection this
    have hrest : (pre ++ post).Perm (preT ++ postT) := by
      have hperm := h.building
      rw [hb, hbT, hitems] at hperm
      exact (perm_middle.symm.trans (hperm.trans perm_middle)).cons_inv
    refine ⟨T', rfl, ⟨?_, ?_, h.nodup.extend hT⟩⟩
    · rw [hb', hbT', hitems]
      exact perm_middle.trans ((hrest.cons _).trans perm_middle.symm)
    · rw [hfin, hfinT]
      exact h.finished

end Extend

end Similar

end Slots
