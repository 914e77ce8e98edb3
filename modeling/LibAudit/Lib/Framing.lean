import Mathlib.Data.List.Basic

/-!
# Cutting a stream into frames

A reader that is handed a stream in pieces keeps what it has not used yet and, whenever it holds
a complete frame, takes that frame off the front.  What it needs to know is `first b`: how long
the frame at the front of `b` is, if `b` holds all of it.  A `Framer` is such a function with the
two properties that make the pieces irrelevant: a frame that is complete stays the same when more
data follow, and nothing that follows it was needed to recognise it.

`split` takes off every complete frame.  `split_append` is the rule all users need: splitting
`a ++ b` is splitting `a`, and then splitting what was left of `a` followed by `b`.
-/

/-- A way of recognising complete frames at the front of a list. -/
structure Framer (α : Type) where
  /-- The length of the frame at the front, if all of it is there. -/
  first : List α → Option Nat
  first_pos : ∀ {b n}, first b = some n → 0 < n
  first_le : ∀ {b n}, first b = some n → n ≤ b.length
  first_append : ∀ {b n} (c : List α), first b = some n → first (b ++ c) = some n
  first_take : ∀ {b n}, first b = some n → first (b.take n) = some n

namespace Framer

open List Option

/-- Frames that end with the first `sep`. -/
def delimited {α : Type} [DecidableEq α] (sep : α) : Framer α where
  first b := (b.findIdx? (· == sep)).map (· + 1)
  first_pos := by
    intro b n h
    obtain ⟨i, -, rfl⟩ := map_eq_some_iff.mp h
    exact Nat.succ_pos i
  first_le := by
    intro b n h
    obtain ⟨i, hi, rfl⟩ := map_eq_some_iff.mp h
    exact (findIdx?_eq_some_iff_getElem.mp hi).1
  first_append := by
    intro b n c h
    obtain ⟨i, hi, rfl⟩ := map_eq_some_iff.mp h
    rw [findIdx?_append, hi]
    rfl
  first_take := by
    intro b n h
    obtain ⟨i, hi, rfl⟩ := map_eq_some_iff.mp h
    rw [findIdx?_take, hi]
    simp

variable {α : Type} (F : Framer α)

/-- The complete frames of `b` in order, and what is left over. -/
def split (b : List α) : List (List α) × List α :=
  match _h : F.first b with
  | none => ([], b)
  | some n => (b.take n :: (split (b.drop n)).1, (split (b.drop n)).2)
termination_by b.length
decreasing_by all_goals
  have := F.first_pos _h
  have := F.first_le _h
  rw [length_drop]
  omega

variable {F}

theorem split_of_none {b : List α} (h : F.first b = none) : F.split b = ([], b) := by
  rw [split]
  split
  · rfl
  · rename_i n hn
    rw [h] at hn
    exact absurd hn (by simp)

theorem split_of_some {b : List α} {n : Nat} (h : F.first b = some n) :
    F.split b = (b.take n :: (F.split (b.drop n)).1, (F.split (b.drop n)).2) := by
  rw [split]
  split
  · rename_i hn
    rw [h] at hn
    exact absurd hn (by simp)
  · simp_all

theorem first_nil : F.first [] = none := by
  cases h : F.first [] with
  | none => rfl
  | some n =>
    have hpos := F.first_pos h
    have hle : n ≤ 0 := F.first_le h
    omega

@[simp] theorem split_nil : F.split [] = ([], []) := split_of_none first_nil

theorem split_frame_append {m : List α} (h : F.first m = some m.length) (b : List α) :
    F.split (m ++ b) = (m :: (F.split b).1, (F.split b).2) := by
  rw [split_of_some (F.first_append b h), take_left, drop_left]

/-- What is left over holds no complete frame. -/
theorem first_split_snd (b : List α) : F.first (F.split b).2 = none := by
  induction b using split.induct F with
  | case1 b h => rw [split_of_none h]; exact h
  | case2 b n h ih => rw [split_of_some h]; exact ih

/-- **The pieces a stream comes in do not matter.** -/
theorem split_append (F : Framer α) (a b : List α) : F.split (a ++ b) =
      ((F.split a).1 ++ (F.split ((F.split a).2 ++ b)).1, (F.split ((F.split a).2 ++ b)).2) := by
  induction a using split.induct F with
  | case1 a h => rw [split_of_none h]; rfl
  | case2 a n h ih =>
    rw [split_of_some (F.first_append b h), split_of_some h,
      take_append_of_le_length (F.first_le h), drop_append_of_le_length (F.first_le h),
      ih]
    rfl

theorem flatten_split (b : List α) : (F.split b).1.flatten ++ (F.split b).2 = b := by
  induction b using split.induct F with
  | case1 b h => rw [split_of_none h]; rfl
  | case2 b n h ih =>
    rw [split_of_some h, flatten_cons, append_assoc, ih, take_append_drop]

theorem split_flatten {ms : List (List α)} (h : ∀ m ∈ ms, F.first m = some m.length) :
    F.split ms.flatten = (ms, []) := by
  induction ms with
  | nil => exact split_nil
  | cons m ms ih =>
    rw [flatten_cons, split_frame_append (h m (mem_cons_self ..)),
      ih fun m' hm' => h m' (mem_cons_of_mem m hm')]

/-- Each frame is complete by itself. -/
theorem first_of_mem_split {b m : List α} (h : m ∈ (F.split b).1) : F.first m = some m.length := by
  induction b using split.induct F with
  | case1 b hb =>
    rw [split_of_none hb] at h
    exact absurd h (by simp)
  | case2 b n hb ih =>
    rw [split_of_some hb] at h
    rcases mem_cons.mp h with rfl | hm
    · rw [length_take, Nat.min_eq_left (F.first_le hb)]
      exact F.first_take hb
    · exact ih hm

theorem length_split_snd_lt {ms : List (List α)} (h : ∀ m ∈ ms, F.first m = some m.length)
    {a b : List α} (hab : a ++ b = ms.flatten) (hb : b ≠ []) :
    ∃ m ∈ ms, (F.split a).2.length < m.length := by
  have hsplit := F.split_append a b
  rw [hab, split_flatten h, Prod.mk.injEq] at hsplit
  obtain ⟨hms, hrest⟩ := hsplit
  cases hfirst : F.first ((F.split a).2 ++ b) with
  | none =>
    rw [split_of_none hfirst] at hrest
    exact absurd (append_eq_nil_iff.mp hrest.symm).2 hb
  | some n =>
    refine ⟨((F.split a).2 ++ b).take n, ?_, ?_⟩
    · rw [hms, split_of_some hfirst]
      exact mem_append_right _ (mem_cons_self ..)
    · by_contra hle
      rw [length_take, Nat.min_eq_left (F.first_le hfirst), Nat.not_lt] at hle
      have htake := F.first_take hfirst
      rw [take_append_of_le_length hle] at htake
      have hsome := F.first_append ((F.split a).2.drop n) htake
      rw [take_append_drop, first_split_snd] at hsome
      exact absurd hsome (by simp)

section Delimited

variable [DecidableEq α] {sep : α}

/-- There is a frame for every `sep`. -/
theorem length_split_delimited (b : List α) : ((delimited sep).split b).1.length = b.count sep := by
  induction b using split.induct (delimited sep) with
  | case1 b h =>
    have hno : b.findIdx? (· == sep) = none := map_eq_none_iff.mp h
    rw [split_of_none h, length_nil, eq_comm, count_eq_zero]
    intro hmem
    simpa using findIdx?_eq_none_iff.mp hno sep hmem
  | case2 b n h ih =>
    have hcount : (b.take n).count sep = 1 := by
      obtain ⟨i, hi, rfl⟩ := map_eq_some_iff.mp h
      obtain ⟨hlt, heq, hbefore⟩ := findIdx?_eq_some_iff_getElem.mp hi
      have hnone : (b.take i).count sep = 0 := by
        rw [count_eq_zero]
        intro hmem
        obtain ⟨j, hj, hsep⟩ := getElem_of_mem hmem
        rw [length_take] at hj
        exact hbefore j (by omega) (by simpa using hsep)
      rw [take_add_one, getElem?_eq_getElem hlt, count_append, hnone, beq_iff_eq.mp heq]
      simp
    rw [split_of_some h, length_cons, ih]
    conv_rhs => rw [← take_append_drop n b, count_append, hcount]
    omega

/-- Nothing is left over behind a `sep`. -/
theorem split_snd_concat (b : List α) : ((delimited sep).split (b ++ [sep])).2 = [] := by
  have hfirst : (delimited sep).first (((delimited sep).split b).2 ++ [sep]) =
      some (((delimited sep).split b).2 ++ [sep]).length := by
    have hnone : (delimited sep).first ((delimited sep).split b).2 = none := first_split_snd b
    have hno : ((delimited sep).split b).2.findIdx? (· == sep) = none := map_eq_none_iff.mp hnone
    show ((((delimited sep).split b).2 ++ [sep]).findIdx? (· == sep)).map (· + 1) = _
    rw [findIdx?_append, hno]
    simp
  rw [split_append, split_of_some hfirst, drop_length, split_nil]

end Delimited

end Framer
