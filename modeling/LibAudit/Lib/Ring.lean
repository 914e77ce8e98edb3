import Mathlib.Data.List.Basic
import Mathlib.Data.Nat.ModEq

/-!
# Ring buffers

A ring of `n` slots holds a list by storing its `k`-th element in slot `(head + k) % n`.  What a
slot looks like is left open: `P i a` says that slot `i` stores `a`, and `E i` that slot `i` is
empty, so that one ring argument serves an array of pointers, a file of fixed-size records, or
both at once.

* `Ring.Holds P n head l` — the slots from `head` on store the elements of `l`.
* `Ring.Free E n head len` — every slot outside the `len` slots from `head` on is empty.

`Holds.push`, `Holds.pop`, `Free.push` and `Free.pop` say what appending at the tail and dropping
the head do to them; the only thing asked of the new slots is that they agree with the old ones
away from the slot that was written.
-/

namespace Ring

open List

universe u

variable {α : Type u} {P P' : Nat → α → Prop} {E E' : Nat → Prop} {n head len : Nat}
  {l : List α} {a : α}

/-- The slot after `head`, wrapping around at the end. -/
def next (n head : Nat) : Nat := if head + 1 = n then 0 else head + 1

theorem next_eq_mod (h : head < n) : next n head = (head + 1) % n := by
  rw [next]
  split
  · rename_i he
    rw [he, Nat.mod_self]
  · rw [Nat.mod_eq_of_lt (by omega)]

theorem next_lt (h : head < n) : next n head < n := by
  rw [next]
  split <;> omega

theorem next_add_mod (h : head < n) (k : Nat) : (next n head + k) % n = (head + (k + 1)) % n := by
  rw [next_eq_mod h, Nat.mod_add_mod, Nat.add_right_comm, Nat.add_assoc]

theorem slot_ne (head : Nat) {j k : Nat} (hj : j < n) (hk : k < n) (hne : j ≠ k) :
    (head + j) % n ≠ (head + k) % n := by
  intro h
  have hmod : j ≡ k [MOD n] := Nat.ModEq.add_left_cancel' head h
  exact hne (Nat.ModEq.eq_of_lt_of_lt hmod hj hk)

/-- The slots from `head` on store the elements of `l`. -/
def Holds (P : Nat → α → Prop) (n head : Nat) (l : List α) : Prop :=
  ∀ k a, l[k]? = some a → P ((head + k) % n) a

/-- Every slot outside the `len` slots from `head` on is empty. -/
def Free (E : Nat → Prop) (n head len : Nat) : Prop :=
  ∀ i, i < n → (∀ k, k < len → (head + k) % n ≠ i) → E i

theorem holds_nil : Holds P n head [] := fun k a h => by simp at h

theorem Holds.mono (h : Holds P n head l) (hP : ∀ i a, P i a → P' i a) : Holds P' n head l :=
  fun k a hk => hP _ _ (h k a hk)

/-- The head of the list is in the slot `head`. -/
theorem Holds.front (h : Holds P n head (a :: l)) (hh : head < n) : P head a := by
  have := h 0 a rfl
  rwa [Nat.add_zero, Nat.mod_eq_of_lt hh] at this

theorem Holds.push (h : Holds P n head l) (hl : l.length < n)
    (hP : ∀ i b, i ≠ (head + l.length) % n → P i b → P' i b)
    (ha : P' ((head + l.length) % n) a) : Holds P' n head (l ++ [a]) := by
  intro k b hk
  rcases Nat.lt_or_ge k l.length with hlt | hge
  · rw [getElem?_append_left hlt] at hk
    exact hP _ _ (slot_ne head (by omega) hl (by omega)) (h k b hk)
  · rw [getElem?_append_right hge] at hk
    obtain ⟨h0, rfl⟩ : k - l.length = 0 ∧ a = b := by
      cases hm : k - l.length with
      | zero => simpa [hm] using hk
      | succ m => simp [hm] at hk
    obtain rfl : k = l.length := by omega
    exact ha

theorem Holds.pop (h : Holds P n head (a :: l)) (hh : head < n) (hl : l.length < n)
    (hP : ∀ i b, i ≠ head → P i b → P' i b) : Holds P' n (next n head) l := by
  intro k b hk
  have hkl : k < l.length := (List.getElem?_eq_some_iff.mp hk).1
  have hne : (head + (k + 1)) % n ≠ head := by
    have := slot_ne head (show k + 1 < n by omega) (show 0 < n by omega) (Nat.succ_ne_zero k)
    rwa [Nat.add_zero head, Nat.mod_eq_of_lt hh] at this
  rw [next_add_mod hh]
  exact hP _ _ hne (h (k + 1) b (by simpa using hk))

theorem Free.push (h : Free E n head len) (hE : ∀ i, i ≠ (head + len) % n → E i → E' i) :
    Free E' n head (len + 1) := fun i hi hout =>
  hE i (fun he => hout len (Nat.lt_succ_self _) he.symm)
    (h i hi fun k hk => hout k (Nat.lt_succ_of_lt hk))

theorem Free.pop (h : Free E n head (len + 1)) (hh : head < n) (h0 : E' head)
    (hE : ∀ i, i ≠ head → E i → E' i) : Free E' n (next n head) len := by
  intro i hi hout
  by_cases he : i = head
  · exact he ▸ h0
  · refine hE i he (h i hi fun k hk => ?_)
    cases k with
    | zero =>
      rw [Nat.add_zero, Nat.mod_eq_of_lt hh]
      exact Ne.symm he
    | succ k =>
      rw [← next_add_mod hh]
      exact hout k (by omega)

theorem Free.tail (h : Free E n head len) (hl : len < n) : E ((head + len) % n) :=
  h _ (Nat.mod_lt _ (by omega)) fun _ hk => slot_ne head (by omega) hl (by omega)

theorem free_of_forall (h : ∀ i, i < n → E i) : Free E n head len := fun i hi _ => h i hi

/-! ## Lists that do not wrap around -/

/-- The slots from `head` on store the elements of `l`, without wrapping around. -/
def Straight (P : Nat → α → Prop) (head : Nat) (l : List α) : Prop :=
  ∀ k a, l[k]? = some a → P (head + k) a

theorem Straight.mono (h : Straight P head l)
    (hP : ∀ i a, head ≤ i → i < head + l.length → P i a → P' i a) : Straight P' head l := by
  intro k a hk
  have hkl : k < l.length := (List.getElem?_eq_some_iff.mp hk).1
  exact hP _ a (by omega) (by omega) (h k a hk)

theorem Straight.front (h : Straight P head (a :: l)) : P head a := h 0 a rfl

theorem Straight.tail (h : Straight P head (a :: l)) : Straight P (head + 1) l := by
  intro k b hk
  have := h (k + 1) b (by simpa using hk)
  rwa [show head + 1 + k = head + (k + 1) by omega]

theorem Straight.push (h : Straight P head l) (ha : P (head + l.length) a) :
    Straight P head (l ++ [a]) := by
  intro k b hk
  rcases Nat.lt_or_ge k l.length with hlt | hge
  · rw [getElem?_append_left hlt] at hk
    exact h k b hk
  · grind

theorem Holds.straight_take (h : Holds P n head l) : Straight P head (l.take (n - head)) := by
  intro k a hk
  have hkn : k < n - head ∧ l[k]? = some a := by
    rw [getElem?_take] at hk
    simp_all
  have := h k a hkn.2
  rwa [Nat.mod_eq_of_lt (by omega)] at this

theorem Holds.straight_drop (h : Holds P n head l) (hh : head < n) (hl : l.length ≤ n) :
    Straight P 0 (l.drop (n - head)) := by
  intro k a hk
  rw [List.getElem?_drop] at hk
  have hkl : n - head + k < l.length := (List.getElem?_eq_some_iff.mp hk).1
  have := h _ a hk
  rw [show head + (n - head + k) = n + k by omega, Nat.add_mod_left, Nat.mod_eq_of_lt (by omega)] at this
  rwa [Nat.zero_add]

end Ring
