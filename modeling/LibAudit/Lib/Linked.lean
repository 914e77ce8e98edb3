import LibAudit.Lib.Heap

/-!
# Doubly linked lists in a heap

`Seg h p l q` says that the nodes of `l`, given by their addresses and their data, are linked with each
other in both directions, that the first one points back to `p` and the last one on to `q`.

A list is taken apart and put together with `seg_append`.  What an operation does not write to stays
(`Seg.congr`), and at the two ends of a segment the outer pointers may be written (`Seg.setPrev`,
`Seg.setNext`).
-/

namespace Linked

open List

/-- A node of a list. -/
structure Node (β : Type) where
  prev : Option Nat
  next : Option Nat
  data : β

variable {β : Type}

/-- The address of the first node. -/
def first (l : List (Nat × β)) : Option Nat := l.head?.map (·.1)

/-- The address of the last node. -/
def last (l : List (Nat × β)) : Option Nat := l.getLast?.map (·.1)

/-- A segment of a list, between two pointers. -/
def Seg (h : Heap (Node β)) : Option Nat → List (Nat × β) → Option Nat → Prop
  | _, [], _ => True
  | p, (a, d) :: l, q => h.cell a = some ⟨p, (first l).or q, d⟩ ∧ Seg h (some a) l q

variable {h h' : Heap (Node β)} {p p' q q' : Option Nat} {l l' : List (Nat × β)} {a : Nat} {d : β}

@[simp] theorem first_nil : first ([] : List (Nat × β)) = none := rfl

@[simp] theorem first_cons (x : Nat × β) (l : List (Nat × β)) : first (x :: l) = some x.1 := rfl

@[simp] theorem last_nil : last ([] : List (Nat × β)) = none := rfl

@[simp] theorem last_concat (l : List (Nat × β)) (x : Nat × β) : last (l ++ [x]) = some x.1 := by
  rw [last, getLast?_concat]
  rfl

theorem last_cons (x : Nat × β) (l : List (Nat × β)) : last (x :: l) = (last l).or (some x.1) := by
  simp [last, getLast?_cons]

theorem last_cons_of_ne_nil (x : Nat × β) (hne : l ≠ []) : last (x :: l) = last l := by
  obtain ⟨y, l, rfl⟩ := exists_cons_of_ne_nil hne
  rw [last_cons, last_cons, Option.or_assoc, Option.some_or]

theorem mem_of_first (h : first l = some a) : a ∈ l.map (·.1) := by
  cases l with
  | nil => cases h
  | cons x l => exact mem_cons.mpr (.inl (Option.some.inj h).symm)

theorem first_append (l l' : List (Nat × β)) : first (l ++ l') = (first l).or (first l') := by
  cases l <;> rfl

theorem last_append (l l' : List (Nat × β)) : last (l ++ l') = (last l').or (last l) := by
  rw [last, last, last, getLast?_append]
  cases l'.getLast? <;> rfl

theorem seg_append : Seg h p (l ++ l') q ↔ Seg h p l ((first l').or q) ∧ Seg h ((last l).or p) l' q := by
  induction l generalizing p with
  | nil => simp [Seg]
  | cons x l ih =>
    simp [cons_append, Seg, ih, first_append, Option.or_assoc, last_cons, Option.some_or, and_assoc]

/-- Only the nodes themselves matter. -/
theorem Seg.congr (hseg : Seg h p l q) (hl : ∀ x ∈ l, h'.cell x.1 = h.cell x.1) : Seg h' p l q := by
  induction l generalizing p with
  | nil => trivial
  | cons x l ih =>
    obtain ⟨a, d⟩ := x
    obtain ⟨hx, hl⟩ := forall_mem_cons.mp hl
    exact ⟨hx.trans hseg.1, ih hseg.2 hl⟩

/-- A write elsewhere. -/
theorem Seg.set (hseg : Seg h p l q) (ha : a ∉ l.map (·.1)) (n : Node β) : Seg (h.set a n) p l q :=
  hseg.congr fun x hx => Heap.cell_set_of_ne fun he => ha (mem_map.mpr ⟨x, hx, he⟩)

theorem Seg.free (hseg : Seg h p l q) (ha : a ∉ l.map (·.1)) : Seg (h.free a) p l q :=
  hseg.congr fun x hx => Heap.cell_free_of_ne fun he => ha (mem_map.mpr ⟨x, hx, he⟩)

theorem Seg.setPrev (hseg : Seg h p ((a, d) :: l) q) (ha : a ∉ l.map (·.1)) (p' : Option Nat) :
    Seg (h.set a ⟨p', (first l).or q, d⟩) p' ((a, d) :: l) q :=
  ⟨Heap.cell_set_self, hseg.2.set ha _⟩

/-- And the last one on to something else. -/
theorem Seg.setNext (hseg : Seg h p (l ++ [(a, d)]) q) (ha : a ∉ l.map (·.1)) (q' : Option Nat) :
    Seg (h.set a ⟨(last l).or p, q', d⟩) p (l ++ [(a, d)]) q' := by
  obtain ⟨hl, -⟩ := seg_append.mp hseg
  exact seg_append.mpr ⟨hl.set ha _, Heap.cell_set_self, trivial⟩

/-- When its neighbours point at each other, a node is out of the list. -/
theorem Seg.unlink {b c : Nat} {e f : β} (hseg : Seg h p (l ++ [(b, e)] ++ (a, d) :: (c, f) :: l') q)
    (hnodup : ((l ++ [(b, e)] ++ (a, d) :: (c, f) :: l').map (·.1)).Nodup) :
    Seg ((h.set b ⟨(last l).or p, some c, e⟩).set c ⟨some b, (first l').or q, f⟩) p
      (l ++ [(b, e)] ++ (c, f) :: l') q := by
  have hbl : b ∉ l.map (·.1) := by grind
  have hbl' : b ∉ ((c, f) :: l').map (·.1) := by grind
  have hcl : c ∉ (l ++ [(b, e)]).map (·.1) := by grind
  have hcl' : c ∉ l'.map (·.1) := by grind
  obtain ⟨hfront, -, hback⟩ := seg_append.mp hseg
  refine seg_append.mpr ⟨(hfront.setNext hbl (some c)).set hcl _, ?_⟩
  rw [last_concat]
  exact (hback.set hbl' _).setPrev hcl' (some b)

theorem Seg.push {b : Nat} {e : β} (hseg : Seg h p ((b, e) :: l) q) (hbl : b ∉ l.map (·.1)) (p' : Option Nat)
    (ha : a ∉ ((b, e) :: l).map (·.1)) (d : β) :
    Seg ((h.set a ⟨p', some b, d⟩).set b ⟨some a, (first l).or q, e⟩) p' ((a, d) :: (b, e) :: l) q := by
  have hab : a ≠ b := by grind
  exact ⟨(Heap.cell_set_of_ne hab).trans Heap.cell_set_self, (hseg.set ha _).setPrev hbl (some a)⟩

/-- What is at the address of a node. -/
theorem Seg.cell_of_mem (hseg : Seg h p l q) (hmem : (a, d) ∈ l) : ∃ p' q', h.cell a = some ⟨p', q', d⟩ := by
  obtain ⟨l₁, l₂, rfl⟩ := append_of_mem hmem
  exact ⟨_, _, (seg_append.mp hseg).2.1⟩

end Linked
