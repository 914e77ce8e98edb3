import Mathlib.Data.List.Basic
import Mathlib.Data.List.Nodup

/-!
# Linked lists with a cursor

A list of nodes with a pointer to the current one, as it is written in C many times over.  Nodes are
added behind the end that is reached from the current node.  If there is no current node although the
list is not empty, the new node is linked to nothing: `loose` are the nodes that hang together behind
such a node.

The current node is given by its place in the list, and behind that in `loose`.
-/

namespace LibAudit

open List

universe u

/-- A linked list with a cursor. -/
structure Chain (α : Type u) where
  nodes : List α
  loose : List α
  cur : Option Nat

namespace Chain

variable {α : Type u}

/-- The empty list. -/
def empty : Chain α := ⟨[], [], none⟩

/-- The current node. -/
def getCur (l : Chain α) : Option α := l.cur.bind fun i => (l.nodes ++ l.loose)[i]?

/-- A node is added, and becomes the current one. -/
def append (l : Chain α) (a : α) : Chain α :=
  if l.nodes.isEmpty then ⟨[a], [], some 0⟩
  else match l.cur with
    | none => ⟨l.nodes, [a], some l.nodes.length⟩
    | some i =>
      if i < l.nodes.length then ⟨l.nodes ++ [a], [], some l.nodes.length⟩
      else ⟨l.nodes, l.loose ++ [a], some (l.nodes.length + l.loose.length)⟩

/-- The first node that satisfies `p` becomes the current one. -/
def find (l : Chain α) (p : α → Bool) : Option (Chain α) :=
  (l.nodes.findIdx? p).map fun i => ⟨l.nodes, [], some i⟩

/-- The current node is changed. -/
def update (l : Chain α) (f : α → α) : Chain α :=
  match l.cur with
  | none => l
  | some i =>
    if i < l.nodes.length then ⟨l.nodes.modify i f, l.loose, l.cur⟩
    else ⟨l.nodes, l.loose.modify (i - l.nodes.length) f, l.cur⟩

/-- The current node is removed from the list.  The one in front of it becomes the current one, or the
first one if there is none. -/
def deleteCur (l : Chain α) : Chain α :=
  match l.cur with
  | none => l
  | some i =>
    if i < l.nodes.length then
      let rest := l.nodes.eraseIdx i
      ⟨rest, [], if i = 0 then if rest.isEmpty then none else some 0 else some (i - 1)⟩
    else l

/-! ## Lists whose cursor is in the list -/

/-- There is a current node in the list, unless the list is empty. -/
def Linked (l : Chain α) : Prop := l.nodes ≠ [] → ∃ i, l.cur = some i ∧ i < l.nodes.length

variable {l l' : Chain α} {p : α → Bool}

theorem linked_empty : (empty : Chain α).Linked := fun h => absurd rfl h

/-- The cursor is at a place in the list. -/
theorem linked_mk (nodes loose : List α) {i : Nat} (h : i < nodes.length) :
    (⟨nodes, loose, some i⟩ : Chain α).Linked := fun _ => ⟨i, rfl, h⟩

theorem Linked.append (h : l.Linked) (a : α) :
    (l.append a).nodes = l.nodes ++ [a] ∧ (l.append a).Linked := by
  rw [Chain.append]
  split
  · rename_i hempty
    rw [isEmpty_iff.mp hempty]
    exact ⟨rfl, linked_mk _ _ Nat.zero_lt_one⟩
  · rename_i hempty
    obtain ⟨i, hcur, hi⟩ := h fun hnil => hempty (by rw [hnil]; rfl)
    rw [hcur]
    dsimp only
    rw [if_pos hi]
    exact ⟨rfl, linked_mk _ _ (by simp)⟩

/-- What `find` finds. -/
theorem find_eq_some (h : l.find p = some l') :
    ∃ i, ∃ hi : i < l.nodes.length, l.nodes.findIdx? p = some i ∧ p l.nodes[i] = true ∧
      l' = ⟨l.nodes, [], some i⟩ := by
  rw [find, Option.map_eq_some_iff] at h
  obtain ⟨i, hidx, rfl⟩ := h
  obtain ⟨hi, hp, -⟩ := findIdx?_eq_some_iff_getElem.mp hidx
  exact ⟨i, hi, hidx, hp, rfl⟩

theorem find_eq_none (h : l.find p = none) : ∀ a ∈ l.nodes, p a = false := by
  rw [find, Option.map_eq_none_iff] at h
  exact findIdx?_eq_none_iff.mp h

/-- The node that is found is removed. -/
theorem deleteCur_mk (nodes loose : List α) {i : Nat} (h : i < nodes.length) :
    (⟨nodes, loose, some i⟩ : Chain α).deleteCur.nodes = nodes.eraseIdx i ∧
      (⟨nodes, loose, some i⟩ : Chain α).deleteCur.Linked := by
  have heq : (⟨nodes, loose, some i⟩ : Chain α).deleteCur = ⟨nodes.eraseIdx i, [],
      if i = 0 then if (nodes.eraseIdx i).isEmpty then none else some 0 else some (i - 1)⟩ := by
    simp only [deleteCur, if_pos h]
  rw [heq]
  refine ⟨rfl, fun hne => ?_⟩
  dsimp only at hne ⊢
  have hlen : (nodes.eraseIdx i).length = nodes.length - 1 := length_eraseIdx_of_lt h
  by_cases hi : i = 0
  · have hempty : ¬ (nodes.eraseIdx i).isEmpty = true := fun h => hne (isEmpty_iff.mp h)
    rw [if_pos hi, if_neg hempty]
    exact ⟨0, rfl, length_pos_of_ne_nil hne⟩
  · rw [if_neg hi]
    exact ⟨i - 1, rfl, by omega⟩

theorem update_mk (nodes loose : List α) (f : α → α) {i : Nat} (h : i < nodes.length) :
    (⟨nodes, loose, some i⟩ : Chain α).update f = ⟨nodes.modify i f, loose, some i⟩ := by
  simp only [update, if_pos h]

end Chain

/-! ## Nodes with distinct keys -/

section Keys

variable {α β : Type u} {l : List α} {i : Nat}

/-- The keys of the other nodes are different. -/
theorem key_ne_of_nodup (key : α → β) (h : (l.map key).Nodup) (hi : i < l.length) :
    (∀ a ∈ l.take i, key a ≠ key l[i]) ∧ ∀ a ∈ l.drop (i + 1), key a ≠ key l[i] := by
  have hl : l.take i ++ l[i] :: l.drop (i + 1) = l := by
    rw [← drop_eq_getElem_cons hi, take_append_drop]
  rw [← hl, map_append, map_cons, nodup_append', nodup_cons] at h
  obtain ⟨-, ⟨hnot, -⟩, hdisj⟩ := h
  constructor
  · intro a ha heq
    exact hdisj (mem_map_of_mem ha) (heq ▸ mem_cons_self)
  · intro a ha heq
    exact hnot (heq ▸ mem_map_of_mem ha)

variable [DecidableEq β]

theorem eraseIdx_eq_filter (key : α → β) (h : (l.map key).Nodup) (hi : i < l.length) :
    l.eraseIdx i = l.filter fun a => key a ≠ key l[i] := by
  obtain ⟨htake, hdrop⟩ := key_ne_of_nodup key h hi
  generalize hk : key l[i] = k at *
  conv_rhs => rw [← take_append_drop i l, drop_eq_getElem_cons hi]
  rw [eraseIdx_eq_take_drop_succ, filter_append, filter_cons_of_neg (by simp [hk]),
    filter_eq_self.mpr (by simpa using htake), filter_eq_self.mpr (by simpa using hdrop)]

theorem filter_key_eq (key : α → β) (h : (l.map key).Nodup) (hi : i < l.length) :
    (l.filter fun a => !decide (key a ≠ key l[i])) = [l[i]] := by
  obtain ⟨htake, hdrop⟩ := key_ne_of_nodup key h hi
  generalize hk : key l[i] = k at *
  conv_lhs => rw [← take_append_drop i l, drop_eq_getElem_cons hi]
  rw [filter_append, filter_cons_of_pos (by simp [hk]),
    filter_eq_nil_iff.mpr (by simpa using htake),
    filter_eq_nil_iff.mpr (by simpa using hdrop), nil_append]

theorem modify_eq_map (key : α → β) (g : α → α) (h : (l.map key).Nodup) (hi : i < l.length) :
    l.modify i g = l.map fun a => if key a = key l[i] then g a else a := by
  obtain ⟨htake, hdrop⟩ := key_ne_of_nodup key h hi
  generalize hk : key l[i] = k at *
  conv_rhs => rw [← take_append_drop i l, drop_eq_getElem_cons hi]
  rw [modify_eq_take_cons_drop hi, map_append, map_cons, if_pos hk]
  congr 1
  · refine (map_id _).symm.trans (map_congr_left fun a ha => ?_)
    rw [if_neg (htake a ha), id_eq]
  · congr 1
    refine (map_id _).symm.trans (map_congr_left fun a ha => ?_)
    rw [if_neg (hdrop a ha), id_eq]

end Keys

end LibAudit
