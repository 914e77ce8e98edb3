import LibAudit.Lib.Linked
import LibAudit.Lib.CString
import Mathlib.Data.List.Nodup

/-!
# The LRU cache: `lru.c`

A queue of nodes, doubly linked, with an array of pointers to them.  The index of the array is the key of a
node.  A lookup moves the node of its key to the front of the queue, or puts a new one there;
`lru_evict` removes the node at the front.

The nodes are objects in a heap.  Using a pointer to something that is not there is an error, and so is an
index outside of the array; both are `none`, and also the `abort` in `remove_node`.  `malloc` never fails.

`remove_node` does not look at the end of the queue when it removes the node at the front.  If that was the
only node, `end` is left pointing at memory that is freed.  And `lru_evict` clears the slot of the key it is
given, whatever the key of the node is that it removes.  These are the only ways to lose the structure of
the queue: `wellFormed_throughout_iff`.
-/

namespace LibAudit.Auparse.Lru

open Linked List Option Heap
open Option (bind_some bind_eq_bind some_or)

/-! ## The source -/

/-- The data of a `QNode`. -/
structure Entry where
  id : UInt32
  str : Option CString
  /-- The key for which the node was made.  Nothing reads it. -/
  key : Nat
  deriving DecidableEq

/-- `Queue`, with the memory of its nodes. -/
structure Queue where
  count : Nat
  total : Nat
  front : Option Nat
  end_ : Option Nat
  array : List (Option Nat)
  heap : Heap (Node Entry)

/-- `init_lru`. -/
def initLru (qsize : Nat) : Queue where
  count := 0
  total := qsize
  front := none
  end_ := none
  array := List.replicate qsize none
  heap := .empty

namespace Queue

/-- `insert_before`. -/
def insertBefore (q : Queue) (node newNode : Nat) : Option Queue := do
  let n ← q.heap.cell node
  let heap ← q.heap.modify newNode fun m => { m with prev := n.prev, next := some node }
  match n.prev with
  | none =>
    let heap ← heap.modify node fun m => { m with prev := some newNode }
    some { q with front := some newNode, heap }
  | some p =>
    let heap ← heap.modify p fun m => { m with next := some newNode }
    let heap ← heap.modify node fun m => { m with prev := some newNode }
    some { q with heap }

/-- `insert_beginning`. -/
def insertBeginning (q : Queue) (newNode : Nat) : Option Queue :=
  match q.front with
  | none => do
    let heap ← q.heap.modify newNode fun m => { m with prev := none, next := none }
    some { q with front := some newNode, end_ := some newNode, heap }
  | some front => q.insertBefore front newNode

/-- `remove_node`. -/
def removeNode (q : Queue) (node : Nat) : Option Queue := do
  let n ← q.heap.cell node
  match n.prev with
  | none =>
    match n.next with
    | none => some { q with front := none }
    | some front =>
      let heap ← q.heap.modify front fun m => { m with prev := none }
      some { q with front := some front, heap }
  | some p =>
    let np ← q.heap.cell p
    if np.next ≠ some node then none
    else
      let heap ← q.heap.modify p fun m => { m with next := n.next }
      match n.next with
      | none =>
        let heap ← heap.modify p fun m => { m with next := none }
        some { q with end_ := some p, heap }
      | some b =>
        let nb ← heap.cell b
        if nb.prev ≠ some node then none
        else
          let heap ← heap.modify b fun m => { m with prev := some p }
          some { q with heap }

/-- A node is freed, and the count goes down. -/
def discard (q : Queue) (node : Nat) : Option Queue := do
  let _ ← q.heap.cell node
  some { q with heap := q.heap.free node, count := q.count - 1 }

/-- `hash->array[key] = node`. -/
def setSlot (q : Queue) (key : Nat) (node : Option Nat) : Option Queue :=
  if key < q.array.length then some { q with array := q.array.set key node } else none

/-- `dequeue`. -/
def dequeue (q : Queue) : Option Queue :=
  match q.end_ with
  | none => some q
  | some temp => do
    let q ← q.removeNode temp
    q.discard temp

/-- `lru_evict`. -/
def lruEvict (q : Queue) (key : Nat) : Option Queue :=
  if q.end_ = none then some q
  else do
    let q ← q.setSlot key none
    let temp ← q.front
    let q ← q.removeNode temp
    q.discard temp

/-- `new_QNode`. -/
def newQNode (A : Allocator (Node Entry)) (q : Queue) (key : Nat) : Queue × Nat :=
  let temp := A.place q.heap
  ({ q with heap := q.heap.set temp ⟨none, none, -1, none, key⟩ }, temp)

/-- `enqueue`. -/
def enqueue (A : Allocator (Node Entry)) (q : Queue) (key : Nat) : Option Queue := do
  let q ← if q.count = q.total then (q.setSlot key none).bind dequeue else some q
  let (q, temp) := newQNode A q key
  let q ← q.insertBeginning temp
  let q ← q.setSlot key (some temp)
  some { q with count := q.count + 1 }

/-- `check_lru_cache`. -/
def checkLruCache (A : Allocator (Node Entry)) (q : Queue) (key : Nat) : Option (Queue × Option Nat) :=
  if q.total ≤ key then some (q, none)
  else do
    let slot ← q.array[key]?
    let q ← match slot with
      | none => q.enqueue A key
      | some reqPage =>
        if q.front ≠ some reqPage then do
          let q ← q.removeNode reqPage
          let heap ← q.heap.modify reqPage fun m => { m with prev := none, next := none }
          Queue.insertBeginning { q with heap } reqPage
        else some q
    some (q, q.front)

end Queue

/-! ## What the queue holds -/

/-- The nodes of the queue, from the front on, and the slots that refer to them.  When there is no node,
`end` may be anything. -/
structure Holds (q : Queue) (l : List (Nat × Entry)) : Prop where
  nodup : (l.map (·.1)).Nodup
  seg : Seg q.heap none l none
  front : q.front = first l
  end_ : l ≠ [] → q.end_ = last l
  count : q.count = l.length
  size : q.array.length = q.total
  slots : ∀ k a, q.array[k]? = some (some a) ↔ ∃ e, (a, e) ∈ l ∧ e.key = k

/-- The keys of the nodes. -/
def keys (l : List (Nat × Entry)) : List Nat := l.map (·.2.key)

namespace Holds

variable {q : Queue} {l l₁ l₂ : List (Nat × Entry)} {a : Nat} {d : Entry}

/-- An address is that of one node. -/
theorem entry_unique (h : Holds q l) {e : Entry} (hd : (a, d) ∈ l) (he : (a, e) ∈ l) : d = e :=
  congrArg Prod.snd (inj_on_of_nodup_map h.nodup hd he rfl)

theorem keys_nodup (h : Holds q l) : (keys l).Nodup := by
  have hl : l.Nodup := List.Nodup.of_map _ h.nodup
  refine List.Nodup.map_on ?_ hl
  rintro ⟨a, d⟩ hd ⟨b, e⟩ he hkey
  have ha := (h.slots d.key a).mpr ⟨d, hd, rfl⟩
  have hb := (h.slots d.key b).mpr ⟨e, he, hkey.symm⟩
  obtain rfl : a = b := by simpa [ha] using hb
  rw [h.entry_unique hd he]

theorem key_lt (h : Holds q l) (hd : (a, d) ∈ l) : d.key < q.total := by
  obtain ⟨hlt, -⟩ := List.getElem?_eq_some_iff.mp ((h.slots d.key a).mpr ⟨d, hd, rfl⟩)
  exact h.size ▸ hlt

theorem end_ne_none {x : Nat × Entry} (h : Holds q (x :: l)) : q.end_ ≠ none := by
  rw [h.end_ (cons_ne_nil x l), last_cons]
  simp

/-- While a slot is free, the queue is not full. -/
theorem length_lt (h : Holds q l) {key : Nat} (hkey : key < q.total) (hfree : key ∉ keys l) :
    l.length < q.total := by
  have hsub : key :: keys l ⊆ List.range q.total := by
    rw [cons_subset]
    refine ⟨mem_range.mpr hkey, fun k hk => ?_⟩
    obtain ⟨⟨a, d⟩, hd, rfl⟩ := mem_map.mp hk
    exact mem_range.mpr (h.key_lt hd)
  have hlen := ((nodup_cons.mpr ⟨hfree, h.keys_nodup⟩).subperm hsub).length_le
  rwa [length_cons, keys, length_map, length_range] at hlen

end Holds

/-! ## The operations on the list -/

section

variable {q : Queue} {l l₁ l₂ : List (Nat × Entry)} {a : Nat} {d : Entry}

/-- The node at the front. -/
theorem removeNode_front (hseg : Seg q.heap none ((a, d) :: l) none)
    (hnodup : (((a, d) :: l).map (·.1)).Nodup) :
    ∃ heap, q.removeNode a = some { q with front := first l, heap } ∧ Seg heap none l none ∧
      heap.cell a = q.heap.cell a := by
  obtain ⟨ha, hl⟩ := hseg
  cases l with
  | nil =>
    refine ⟨q.heap, ?_, trivial, rfl⟩
    simp [Queue.removeNode, ha]
  | cons x l =>
    obtain ⟨b, e⟩ := x
    simp only [map_cons, nodup_cons, mem_cons, not_or] at hnodup
    refine ⟨_, ?_, hl.setPrev hnodup.2.1 none, cell_set_of_ne hnodup.1.1⟩
    simp [Queue.removeNode, ha, modify_eq _ hl.1]

theorem removeNode_inner (hne : l₁ ≠ []) (hseg : Seg q.heap none (l₁ ++ (a, d) :: l₂) none)
    (hnodup : ((l₁ ++ (a, d) :: l₂).map (·.1)).Nodup) (hend : q.end_ = last (l₁ ++ (a, d) :: l₂)) :
    ∃ heap, q.removeNode a = some { q with end_ := last (l₁ ++ l₂), heap } ∧
      Seg heap none (l₁ ++ l₂) none ∧ heap.cell a = q.heap.cell a := by
  obtain ⟨l₀, ⟨p, e⟩, rfl⟩ : ∃ l₀ x, l₁ = l₀ ++ [x] := ⟨_, _, (dropLast_append_getLast hne).symm⟩
  obtain ⟨hl₁, ha, hl₂⟩ := seg_append.mp hseg
  have hp : q.heap.cell p = some ⟨(last l₀).or none, some a, e⟩ := (seg_append.mp hl₁).2.1
  rw [last_concat, some_or] at ha
  have hpl : p ∉ l₀.map (·.1) := by grind
  have hap : a ≠ p := by grind
  cases l₂ with
  | nil =>
    have hone := hl₁.setNext hpl none
    refine ⟨_, ?_, by simpa using hone.setNext hpl none, ?_⟩
    · simp [Queue.removeNode, ha, hp, modify_eq _ hp, modify_eq _ cell_set_self]
    · rw [cell_set_of_ne hap, cell_set_of_ne hap]
  | cons x l₃ =>
    obtain ⟨b, f⟩ := x
    have hbp : b ≠ p := by grind
    have hab : a ≠ b := by grind
    have hlast : last (l₀ ++ [(p, e)] ++ (b, f) :: l₃) = q.end_ := by
      simp only [hend, last_append, last_cons, Option.or_assoc, some_or]
    have hb : (q.heap.set p ⟨(last l₀).or none, some b, e⟩).cell b = some ⟨some a, (first l₃).or none, f⟩ :=
      (cell_set_of_ne hbp).trans hl₂.1
    refine ⟨_, ?_, hseg.unlink hnodup, ?_⟩
    · simp only [Queue.removeNode, bind_eq_bind, ha, bind_some, hp, ne_eq, not_true_eq_false,
        if_false, first_cons, some_or, modify_eq _ hp, hb, modify_eq _ hb, hlast]
    · rw [cell_set_of_ne hab, cell_set_of_ne hap]

theorem insertBeginning_eq {p r : Option Nat} (hseg : Seg q.heap none l none) (hfront : q.front = first l)
    (hend : l ≠ [] → q.end_ = last l) (hnodup : (l.map (·.1)).Nodup) (ha : q.heap.cell a = some ⟨p, r, d⟩)
    (hal : a ∉ l.map (·.1)) :
    ∃ heap, q.insertBeginning a =
        some { q with front := some a, end_ := last ((a, d) :: l), heap } ∧
      Seg heap none ((a, d) :: l) none := by
  cases l with
  | nil =>
    refine ⟨q.heap.set a ⟨none, none, d⟩, ?_, cell_set_self, trivial⟩
    simp [Queue.insertBeginning, hfront, modify_eq _ ha, last_cons]
  | cons x l =>
    obtain ⟨f, e⟩ := x
    have hfl : f ∉ l.map (·.1) := by grind
    have hfa : f ≠ a := by grind
    have hlast : last ((a, d) :: (f, e) :: l) = q.end_ := by
      rw [hend (cons_ne_nil _ _), last_cons_of_ne_nil _ (cons_ne_nil _ _)]
    have hcell : (q.heap.set a ⟨none, some f, d⟩).cell f = some ⟨none, (first l).or none, e⟩ :=
      (cell_set_of_ne hfa).trans hseg.1
    refine ⟨_, ?_, hseg.push hfl none hal d⟩
    rw [Queue.insertBeginning, hfront]
    simp only [first_cons, Queue.insertBefore, bind_eq_bind, hseg.1, bind_some,
      modify_eq _ ha, modify_eq _ hcell, hlast]

end

/-! ## Lookups and evictions -/

section

variable {A : Allocator (Node Entry)} {q : Queue} {l l₁ l₂ : List (Nat × Entry)} {a key : Nat} {d : Entry}

theorem initLru_holds (qsize : Nat) : Holds (initLru qsize) [] where
  nodup := nodup_nil
  seg := trivial
  front := rfl
  end_ h := absurd rfl h
  count := rfl
  size := length_replicate
  slots k a := by simp [initLru, List.getElem?_replicate]

theorem check_behind (h : Holds q (l₁ ++ (a, d) :: l₂)) (hne : l₁ ≠ []) :
    ∃ q', q.checkLruCache A d.key = some (q', some a) ∧ Holds q' ((a, d) :: (l₁ ++ l₂)) ∧
      q'.end_ = last ((a, d) :: (l₁ ++ l₂)) ∧ q'.total = q.total := by
  have hmem : (a, d) ∈ l₁ ++ (a, d) :: l₂ := by simp
  have hslot := (h.slots d.key a).mpr ⟨d, hmem, rfl⟩
  have hkey : ¬ q.total ≤ d.key := Nat.not_le.mpr (h.key_lt hmem)
  have hperm : (l₁ ++ (a, d) :: l₂).Perm ((a, d) :: (l₁ ++ l₂)) := perm_middle
  have hall := (hperm.map (·.1)).nodup_iff.mp h.nodup
  obtain ⟨hout, hnodup⟩ := nodup_cons.mp hall
  have hfront : first (l₁ ++ l₂) = q.front := by
    rw [h.front, first_append, first_append]
    cases l₁ with
    | nil => exact absurd rfl hne
    | cons x l₁ => rfl
  have hne' : q.front ≠ some a := fun he => hout (mem_of_first (hfront.trans he))
  obtain ⟨heap, hremove, hseg, hcell⟩ := removeNode_inner hne h.seg h.nodup (h.end_ (by simp))
  obtain ⟨p, r, ha⟩ := h.seg.cell_of_mem hmem
  rw [← hcell] at ha
  obtain ⟨heap', hinsert, hseg'⟩ := insertBeginning_eq
    (q := { q with end_ := last (l₁ ++ l₂), heap := heap.set a ⟨none, none, d⟩ })
    (hseg.set hout _) hfront.symm (fun _ => rfl) hnodup cell_set_self hout
  refine ⟨{ q with front := some a, end_ := last ((a, d) :: (l₁ ++ l₂)), heap := heap' }, ?_, ?_, rfl, rfl⟩
  · rw [Queue.checkLruCache, if_neg hkey, hslot]
    simp only [bind_eq_bind, bind_some, if_pos hne', hremove, modify_eq _ ha, hinsert]
  · exact {
      nodup := hall
      seg := hseg'
      front := rfl
      end_ := fun _ => rfl
      count := h.count.trans hperm.length_eq
      size := h.size
      slots := fun k b => (h.slots k b).trans (by simp only [hperm.mem_iff]) }

/-- A node at the front stays there. -/
theorem check_front (h : Holds q ((a, d) :: l)) : q.checkLruCache A d.key = some (q, some a) := by
  have hmem : (a, d) ∈ (a, d) :: l := mem_cons_self
  have hkey : ¬ q.total ≤ d.key := Nat.not_le.mpr (h.key_lt hmem)
  have hfront : q.front = some a := h.front
  rw [Queue.checkLruCache, if_neg hkey, (h.slots d.key a).mpr ⟨d, hmem, rfl⟩]
  simp [hfront]

theorem exists_mem_cons_of_ne {b k : Nat} (hk : k ≠ d.key) :
    (∃ e, (b, e) ∈ (a, d) :: l ∧ e.key = k) ↔ ∃ e, (b, e) ∈ l ∧ e.key = k := by grind

/-- For a key without a node, a new one is made. -/
theorem check_miss (h : Holds q l) (hkey : key < q.total) (hfree : key ∉ keys l) :
    ∃ q' a, q.checkLruCache A key = some (q', some a) ∧ Holds q' ((a, ⟨-1, none, key⟩) :: l) ∧
      q'.end_ = last ((a, ⟨-1, none, key⟩) :: l) ∧ q'.total = q.total := by
  have hlt : key < q.array.length := h.size ▸ hkey
  have hslot : q.array[key]? = some none := by
    rw [List.getElem?_eq_getElem hlt]
    cases hcell : q.array[key] with
    | none => rfl
    | some b =>
      obtain ⟨e, he, hekey⟩ := (h.slots key b).mp (by rw [List.getElem?_eq_getElem hlt, hcell])
      exact absurd (List.mem_map.mpr ⟨_, he, hekey⟩) hfree
  have hcount : q.count ≠ q.total := h.count ▸ Nat.ne_of_lt (h.length_lt hkey hfree)
  let temp := A.place q.heap
  have hout : temp ∉ l.map (·.1) := by
    intro hmem
    obtain ⟨⟨b, e⟩, he, rfl⟩ := mem_map.mp hmem
    obtain ⟨p, r, hcell⟩ := h.seg.cell_of_mem he
    cases ((A.free_place q.heap).symm.trans hcell)
  obtain ⟨heap, hinsert, hseg⟩ := insertBeginning_eq
    (q := { q with heap := q.heap.set temp ⟨none, none, -1, none, key⟩ })
    (h.seg.set hout _) h.front h.end_ h.nodup cell_set_self hout
  refine ⟨{ q with
    front := some temp, end_ := last ((temp, ⟨-1, none, key⟩) :: l), heap,
    array := q.array.set key (some temp), count := q.count + 1 }, temp, ?_, ?_, rfl, rfl⟩
  · rw [Queue.checkLruCache, if_neg (Nat.not_le.mpr hkey), hslot]
    simp only [bind_eq_bind, bind_some, Queue.enqueue, if_neg hcount, Queue.newQNode]
    rw [hinsert]
    simp only [bind_some, Queue.setSlot, if_pos hlt]
    rfl
  · exact {
      nodup := nodup_cons.mpr ⟨hout, h.nodup⟩
      seg := hseg
      front := rfl
      end_ := fun _ => rfl
      count := congrArg (· + 1) h.count
      size := length_set.trans h.size
      slots := fun k b => by
        by_cases hk : k = key
        · subst hk
          rw [List.getElem?_set_self hlt]
          constructor
          · simp_all
          · rintro ⟨e, he, hekey⟩
            rcases mem_cons.mp he with he | he
            · rw [(Prod.mk.inj he).1]
            · exact absurd (List.mem_map.mpr ⟨_, he, hekey⟩) hfree
        · rw [List.getElem?_set_ne (Ne.symm hk), h.slots k b, exists_mem_cons_of_ne hk] }

/-- The node of a key is at the front after a lookup.  It was in the queue, or it is new. -/
theorem Holds.check (A : Allocator (Node Entry)) (h : Holds q l) (hkey : key < q.total) :
    ∃ q' a d l', q.checkLruCache A key = some (q', some a) ∧ Holds q' ((a, d) :: l') ∧
      q'.end_ = last ((a, d) :: l') ∧ q'.total = q.total ∧ d.key = key ∧
      ((∃ l₁ l₂, l = l₁ ++ (a, d) :: l₂ ∧ l' = l₁ ++ l₂) ∨
        key ∉ keys l ∧ l' = l ∧ d = ⟨-1, none, key⟩) := by
  by_cases hmem : key ∈ keys l
  · obtain ⟨⟨a, d⟩, hd, rfl⟩ := mem_map.mp hmem
    obtain ⟨l₁, l₂, rfl⟩ := append_of_mem hd
    by_cases hne : l₁ = []
    · subst hne
      exact ⟨q, a, d, l₂, check_front h, h, h.end_ (by simp), rfl, rfl, .inl ⟨[], l₂, rfl, rfl⟩⟩
    · obtain ⟨q', hcheck, hq', hend, htotal⟩ := check_behind h hne
      exact ⟨q', a, d, l₁ ++ l₂, hcheck, hq', hend, htotal, rfl, .inl ⟨l₁, l₂, rfl, rfl⟩⟩
  · obtain ⟨q', a, hcheck, hq', hend, htotal⟩ := check_miss h hkey hmem
    exact ⟨q', a, _, l, hcheck, hq', hend, htotal, rfl, .inr ⟨hmem, rfl, rfl⟩⟩

/-- `lru_evict` removes the node at the front, clears the slot of its argument, and leaves `end` as it
is. -/
theorem lruEvict_eq (h : Holds q ((a, d) :: l)) (hkey : key < q.total) : ∃ heap, q.lruEvict key =
        some { q with array := q.array.set key none, front := first l, heap, count := l.length } ∧
      Seg heap none l none ∧ heap.cell a = none := by
  have hfront : q.front = some a := h.front
  have hout : a ∉ l.map (·.1) := (nodup_cons.mp h.nodup).1
  obtain ⟨heap, hremove, hseg, hcell⟩ :=
    removeNode_front (q := { q with array := q.array.set key none }) h.seg h.nodup
  refine ⟨heap.free a, ?_, hseg.free hout, cell_free_self⟩
  have hlive : heap.cell a = some ⟨none, (first l).or none, d⟩ := hcell.trans h.seg.1
  have hcount : q.count - 1 = l.length := by rw [h.count, length_cons, Nat.add_sub_cancel]
  rw [Queue.lruEvict, if_neg h.end_ne_none, Queue.setSlot, if_pos (h.size ▸ hkey)]
  simp only [hfront] at hremove
  simp [bind_eq_bind, bind_some, hfront, hremove, Queue.discard, hlive, hcount]

/-- Evicting the node at the front, by its key. -/
theorem Holds.evict (h : Holds q ((a, d) :: l)) :
    ∃ q', q.lruEvict d.key = some q' ∧ Holds q' l ∧ q'.end_ = q.end_ ∧ q'.total = q.total := by
  have hkey := h.key_lt mem_cons_self
  obtain ⟨heap, hevict, hseg, -⟩ := lruEvict_eq h hkey
  refine ⟨_, hevict, ?_, rfl, rfl⟩
  have hnotMem : d.key ∉ keys l := (nodup_cons.mp h.keys_nodup).1
  exact {
    nodup := (nodup_cons.mp h.nodup).2
    seg := hseg
    front := rfl
    end_ := fun hne => (h.end_ (cons_ne_nil _ _)).trans (last_cons_of_ne_nil _ hne)
    count := rfl
    size := length_set.trans h.size
    slots := fun k b => by
      by_cases hk : k = d.key
      · subst hk
        rw [List.getElem?_set_self (h.size ▸ hkey)]
        refine ⟨fun hb => (nomatch hb), ?_⟩
        rintro ⟨e, he, hekey⟩
        exact absurd (List.mem_map.mpr ⟨_, he, hekey⟩) hnotMem
      · rw [List.getElem?_set_ne (Ne.symm hk), h.slots k b, exists_mem_cons_of_ne hk] }

end

/-! ## Sequences of operations -/

/-- What an application of the queue does. -/
inductive Op where
  | check (key : Nat)
  | evict (key : Nat)
  deriving DecidableEq

/-- One operation. -/
def Op.run (A : Allocator (Node Entry)) (q : Queue) : Op → Option Queue
  | check key => (q.checkLruCache A key).map (·.1)
  | evict key => q.lruEvict key

/-- A sequence of operations. -/
def run (A : Allocator (Node Entry)) (q : Queue) (ops : List Op) : Option Queue := ops.foldlM (Op.run A) q

/-- The queue is a doubly linked list of these nodes: `front` and `end` are its ends, the pointers of its
nodes go in both directions, it is as long as `count` says, and every slot is empty or refers to one of its
nodes, with the key of the slot. -/
structure Chained (q : Queue) (l : List (Nat × Entry)) : Prop where
  nodup : (l.map (·.1)).Nodup
  seg : Seg q.heap none l none
  front : q.front = first l
  end_ : q.end_ = last l
  count : q.count = l.length
  slots : ∀ k a, q.array[k]? = some (some a) → ∃ e, (a, e) ∈ l ∧ e.key = k

/-- The queue is well formed. -/
def Queue.WellFormed (q : Queue) : Prop := ∃ l, Chained q l

/-- The keys, from the last one that was looked up on. -/
def Op.recency (total : Nat) (ks : List Nat) : Op → List Nat
  | check key => if key < total then key :: ks.erase key else ks
  | evict _ => ks.tail

/-- What is evicted is the key that was looked up last, and not the only one. -/
def Op.Safe (ks : List Nat) : Op → Prop
  | check _ => True
  | evict key => ks = [] ∨ ks.head? = some key ∧ 2 ≤ ks.length

/-- All evictions of a sequence are like that. -/
def SafeFrom (total : Nat) : List Nat → List Op → Prop
  | _, [] => True
  | ks, op :: ops => op.Safe ks ∧ SafeFrom total (op.recency total ks) ops

section

variable {A : Allocator (Node Entry)} {q : Queue} {l : List (Nat × Entry)} {op : Op}

theorem Holds.wellFormed (h : Holds q l) (hend : q.end_ = last l) : q.WellFormed :=
  ⟨l, h.nodup, h.seg, h.front, hend, h.count, fun k a => (h.slots k a).mp⟩

/-- A step that is safe. -/
theorem Holds.run_safe (A : Allocator (Node Entry)) (h : Holds q l) (hend : q.end_ = last l)
    (hsafe : op.Safe (keys l)) :
    ∃ q' l', op.run A q = some q' ∧ Holds q' l' ∧ q'.end_ = last l' ∧ q'.total = q.total ∧
      keys l' = op.recency q.total (keys l) := by
  cases op with
  | check key =>
    by_cases hkey : key < q.total
    · obtain ⟨q', a, d, l', hcheck, hq', hend', htotal, rfl, hl'⟩ := h.check A hkey
      refine ⟨q', (a, d) :: l', by rw [Op.run, hcheck]; rfl, hq', hend', htotal, ?_⟩
      rw [Op.recency, if_pos hkey, keys, map_cons]
      congr 1
      rcases hl' with ⟨l₁, l₂, rfl, rfl⟩ | ⟨hfree, rfl, -⟩
      · have hnodup := h.keys_nodup
        rw [keys, map_append, map_cons] at hnodup
        have hl₁ : d.key ∉ l₁.map (·.2.key) := by grind
        rw [keys, map_append, map_append, map_cons, erase_append_right _ hl₁, erase_cons_head]
      · exact (erase_of_not_mem hfree).symm
    · refine ⟨q, l, ?_, h, hend, rfl, (if_neg hkey).symm⟩
      rw [Op.run, Queue.checkLruCache, if_pos (Nat.not_lt.mp hkey)]
      rfl
  | evict key =>
    cases l with
    | nil =>
      refine ⟨q, [], ?_, h, hend, rfl, rfl⟩
      exact if_pos hend
    | cons x l =>
      obtain ⟨a, d⟩ := x
      obtain ⟨hhead, hlen⟩ := hsafe.resolve_left (cons_ne_nil _ _)
      obtain rfl : d.key = key := some.inj hhead
      obtain ⟨q', hevict, hq', hend', htotal⟩ := h.evict
      have hne : l ≠ [] := by
        rintro rfl
        exact absurd hlen (by simp [keys])
      exact ⟨q', l, hevict, hq', hend'.trans (hend.trans (last_cons_of_ne_nil _ hne)), htotal, rfl⟩

/-- A step that is not safe. -/
theorem Holds.run_unsafe (h : Holds q l) (hsafe : ¬ op.Safe (keys l)) {q' : Queue}
    (hrun : op.run A q = some q') : ¬ q'.WellFormed := by
  cases op with
  | check key => exact absurd trivial hsafe
  | evict key =>
    cases l with
    | nil => exact absurd (.inl rfl) hsafe
    | cons x l =>
      obtain ⟨a, d⟩ := x
      have hkey : key < q.total := by
        by_contra hge
        rw [Op.run, Queue.lruEvict, if_neg h.end_ne_none, Queue.setSlot, if_neg (h.size ▸ hge)] at hrun
        cases hrun
      obtain ⟨heap, hevict, -, hcell⟩ := lruEvict_eq h hkey
      obtain rfl := some.inj (hrun.symm.trans hevict)
      rintro ⟨l', h'⟩
      by_cases hd : key = d.key
      · -- the only node: `end` is not reset
        subst hd
        obtain rfl : l = [] := by
          by_contra hne
          have hpos : 0 < l.length := length_pos_iff.mpr hne
          exact hsafe (.inr ⟨rfl, by rw [keys, length_map, length_cons]; omega⟩)
        cases l' with
        | nil => exact h.end_ne_none h'.end_
        | cons x l' => cases h'.front
      · -- the slot of the node still refers to it
        have hslot := (h.slots d.key a).mpr ⟨d, mem_cons_self, rfl⟩
        obtain ⟨e, he, -⟩ := h'.slots d.key a (by rw [List.getElem?_set_ne hd, hslot])
        obtain ⟨p, r, hlive⟩ := h'.seg.cell_of_mem he
        cases (hcell.symm.trans hlive)

/-- From any queue that is well formed on. -/
theorem wellFormed_run_iff (h : Holds q l) (hend : q.end_ = last l) (ops : List Op) :
    (∀ pre, pre <+: ops → ∃ q', run A q pre = some q' ∧ q'.WellFormed) ↔
      SafeFrom q.total (keys l) ops := by
  induction ops generalizing q l with
  | nil =>
    refine ⟨fun _ => trivial, fun _ pre hpre => ?_⟩
    obtain rfl := prefix_nil.mp hpre
    exact ⟨q, rfl, h.wellFormed hend⟩
  | cons op ops ih =>
    have hcons : ∀ pre, run A q (op :: pre) = (op.run A q).bind fun q' => run A q' pre :=
      fun _ => foldlM_cons
    constructor
    · intro hall
      obtain ⟨q₁, hrun₁, hq₁⟩ := hall [op] (by simp)
      rw [hcons] at hrun₁
      obtain ⟨q₂, hop, hq₂⟩ := bind_eq_some_iff.mp hrun₁
      obtain rfl : q₂ = q₁ := some.inj hq₂
      have hsafe : op.Safe (keys l) := by
        by_contra hunsafe
        exact h.run_unsafe hunsafe hop hq₁
      obtain ⟨q', l', hop', hq', hend', htotal, hkeys⟩ := h.run_safe A hend hsafe
      refine ⟨hsafe, ?_⟩
      rw [← hkeys, ← htotal, ← ih hq' hend']
      intro pre hpre
      obtain ⟨q'', hrun, hwf⟩ := hall (op :: pre) (cons_prefix_cons.mpr ⟨rfl, hpre⟩)
      rw [hcons, hop', bind_some] at hrun
      exact ⟨q'', hrun, hwf⟩
    · rintro ⟨hsafe, hrest⟩ pre hpre
      obtain ⟨q', l', hop', hq', hend', htotal, hkeys⟩ := h.run_safe A hend hsafe
      rw [← hkeys, ← htotal, ← ih hq' hend'] at hrest
      rcases prefix_cons_iff.mp hpre with rfl | ⟨pre', rfl, hpre'⟩
      · exact ⟨q, rfl, h.wellFormed hend⟩
      · rw [hcons, hop', bind_some]
        exact hrest pre' hpre'

end

/-- **The queue stays well formed** during a sequence of lookups and evictions just if every eviction is for
the key that was looked up last and leaves another node in the queue. -/
theorem wellFormed_throughout_iff (A : Allocator (Node Entry)) (qsize : Nat) (ops : List Op) :
    (∀ pre, pre <+: ops → ∃ q, run A (initLru qsize) pre = some q ∧ q.WellFormed) ↔
      SafeFrom qsize [] ops :=
  wellFormed_run_iff (initLru_holds qsize) rfl ops

/-- The first lookup of a user: the new node is evicted again, and `end` is left without an object. -/
theorem evict_only_node :
    ∃ q, run .behind (initLru 19) [.check 12, .evict 12] = some q ∧ q.front = none ∧ q.count = 0 ∧
      q.end_ = some 0 ∧ q.heap.cell 0 = none ∧ ¬ q.WellFormed := by
  refine ⟨_, rfl, rfl, rfl, rfl, rfl, ?_⟩
  rintro ⟨l, h⟩
  cases l with
  | nil => cases h.end_
  | cons x l => cases h.front

end LibAudit.Auparse.Lru
