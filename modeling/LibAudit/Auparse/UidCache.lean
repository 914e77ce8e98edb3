import LibAudit.Auparse.Lru
import LibAudit.Lib.Number

/-!
# Names of users and groups: `aulookup_uid` and `aulookup_gid`

The names are kept in an LRU cache of 19 slots, so that many ids share a slot.  A node found for another id,
or one that has no name yet, is evicted, and a new one is made from the database.

The cache is transparent (`aulookups_eq`): whatever was looked up before, the answer is the one of the
database.  Between the eviction and the second lookup the queue may not be well formed, because its only
node was removed; the second lookup then makes it well formed again.

The two functions only differ in the database, which is a parameter here and does not change.
-/

namespace LibAudit.Auparse.Lru

open Linked List Option

/-! ## The source -/

/-- `snprintf`, into a buffer of this size. -/
def snprintf (size : Nat) (text : Bytes) : Bytes := text.take (size - 1)

/-- For an id without a name. -/
def unknownId (uid : UInt32) : Bytes := ascii "unknown(" ++ printInt uid.toInt32.toInt ++ ascii ")"

/-- The name of an id through the cache. -/
def cachedName (A : Allocator (Node Entry)) (db : UInt32 → Option CString) (q : Queue) (uid : UInt32) :
    Option (Queue × Option CString) := do
  let key := uid.toNat % q.total
  let (q, node) ← q.checkLruCache A key
  match node with
  | none => some (q, none)
  | some node =>
    let n ← q.heap.cell node
    if n.data.id = uid then some (q, n.data.str)
    else
      let q ← q.lruEvict key
      let (q, node) ← q.checkLruCache A key
      match db uid with
      | none => some (q, none)
      | some name =>
        let node ← node
        let heap ← q.heap.modify node fun m => { m with data := { m.data with str := some name, id := uid } }
        some ({ q with heap }, some name)

/-- `aulookup_uid`, if the database is `getpwuid`, and `aulookup_gid`, if it is `getgrgid`.  The cache is
made when it is first used. -/
def aulookup (A : Allocator (Node Entry)) (db : UInt32 → Option CString) (size : Nat) (cache : Option Queue)
    (uid : UInt32) : Option (Option Queue × Bytes) :=
  if uid = -1 then some (cache, snprintf size (ascii "unset"))
  else if uid = 0 then some (cache, snprintf size (ascii "root"))
  else do
    let (q, name) ← cachedName A db (cache.getD (initLru 19)) uid
    some (some q, snprintf size (name.elim (unknownId uid) CString.bytes))

/-- Several lookups, one after another. -/
def aulookups (A : Allocator (Node Entry)) (db : UInt32 → Option CString) (size : Nat) :
    Option Queue → List UInt32 → Option (List Bytes)
  | _, [] => some []
  | cache, uid :: uids => do
    let (cache, name) ← aulookup A db size cache uid
    let names ← aulookups A db size cache uids
    some (name :: names)

/-- The same without a cache. -/
def directLookup (db : UInt32 → Option CString) (size : Nat) (uid : UInt32) : Bytes :=
  snprintf size <|
    if uid = -1 then ascii "unset"
    else if uid = 0 then ascii "root"
    else (db uid).elim (unknownId uid) CString.bytes

/-! ## The invariant -/

/-- An entry has no id yet, or the name of its id. -/
def Entry.Honest (db : UInt32 → Option CString) (e : Entry) : Prop := e.id ≠ -1 → e.str = db e.id

/-- The queue is well formed, and all its entries are like that. -/
structure Honest (db : UInt32 → Option CString) (q : Queue) (l : List (Nat × Entry)) : Prop where
  holds : Holds q l
  end_ : q.end_ = last l
  total : q.total = 19
  entries : ∀ x ∈ l, x.2.Honest db

section

variable {A : Allocator (Node Entry)} {db : UInt32 → Option CString} {q : Queue}
  {l : List (Nat × Entry)} {a : Nat} {d d' : Entry} {uid : UInt32}

theorem initLru_honest (db : UInt32 → Option CString) : Honest db (initLru 19) [] :=
  ⟨initLru_holds 19, rfl, rfl, fun _ h => nomatch h⟩

theorem exists_key_cons {b k : Nat} (hkey : d'.key = d.key) (h : ∃ e, (b, e) ∈ (a, d) :: l ∧ e.key = k) :
    ∃ e, (b, e) ∈ (a, d') :: l ∧ e.key = k := by grind

theorem Holds.setData (h : Holds q ((a, d) :: l)) (hkey : d'.key = d.key) :
    Holds { q with heap := q.heap.set a ⟨none, (first l).or none, d'⟩ } ((a, d') :: l) where
  __ := h
  seg := ⟨Heap.cell_set_self, h.seg.2.set (nodup_cons.mp h.nodup).1 _⟩
  end_ _ := (h.end_ (cons_ne_nil _ _)).trans (by rw [last_cons, last_cons])
  slots k b := (h.slots k b).trans ⟨exists_key_cons hkey, exists_key_cons hkey.symm⟩

theorem Honest.check (A : Allocator (Node Entry)) (h : Holds q l) (htotal : q.total = 19)
    (hentries : ∀ x ∈ l, x.2.Honest db) {key : Nat} (hkey : key < 19) :
    ∃ q' a d l', q.checkLruCache A key = some (q', some a) ∧ d.key = key ∧ Honest db q' ((a, d) :: l') := by
  obtain ⟨q', a, d, l', hcheck, hq', hend', htotal', hdkey, hl'⟩ := h.check A (htotal ▸ hkey)
  refine ⟨q', a, d, l', hcheck, hdkey, hq', hend', htotal'.trans htotal, ?_⟩
  rcases hl' with ⟨l₁, l₂, rfl, rfl⟩ | ⟨-, rfl, rfl⟩
  · intro x hx
    exact hentries x (perm_middle.mem_iff.mpr hx)
  · exact forall_mem_cons.mpr ⟨fun hid => absurd rfl hid, hentries⟩

/-- **One lookup**: the name is the one of the database. -/
theorem Honest.cachedName (A : Allocator (Node Entry)) (h : Honest db q l) (huid : uid ≠ -1) :
    ∃ q' l', cachedName A db q uid = some (q', db uid) ∧ Honest db q' l' := by
  have hkey : uid.toNat % 19 < 19 := Nat.mod_lt _ (by decide)
  obtain ⟨q₁, a, d, l₁, hcheck₁, hd, h₁⟩ := Honest.check A h.holds h.total h.entries hkey
  have hcell : q₁.heap.cell a = some ⟨none, (first l₁).or none, d⟩ := h₁.holds.seg.1
  rw [Lru.cachedName, h.total]
  by_cases hid : d.id = uid
  · refine ⟨q₁, _, ?_, h₁⟩
    have hstr : d.str = db uid := by
      have := h₁.entries (a, d) mem_cons_self
      rw [← hid]
      exact this (hid ▸ huid)
    simp [hcheck₁, hcell, hid, hstr]
  · obtain ⟨q₂, hevict, h₂, -, htotal₂⟩ := h₁.holds.evict
    rw [hd] at hevict
    have hentries₂ : ∀ x ∈ l₁, x.2.Honest db := fun x hx => h₁.entries x (mem_cons_of_mem _ hx)
    obtain ⟨q₃, b, e, l₃, hcheck₃, -, h₃⟩ := Honest.check A h₂ (htotal₂.trans h₁.total) hentries₂ hkey
    have hcell₃ : q₃.heap.cell b = some ⟨none, (first l₃).or none, e⟩ := h₃.holds.seg.1
    cases hdb : db uid with
    | none =>
      refine ⟨q₃, _, ?_, h₃⟩
      simp [hcheck₁, hcell, hid, hevict, hcheck₃]
    | some name =>
      refine ⟨_, (b, { e with str := some name, id := uid }) :: l₃, ?_, h₃.holds.setData rfl, ?_, h₃.total, ?_⟩
      · simp only [hcheck₁, hcell, hid, hevict, hcheck₃, bind_eq_bind, bind_some, if_false,
          Heap.modify_eq _ hcell₃]
      · rw [h₃.end_, last_cons, last_cons]
      · refine forall_mem_cons.mpr ⟨fun _ => hdb.symm, fun x hx => ?_⟩
        exact h₃.entries x (mem_cons_of_mem _ hx)

/-- What is known of the cache between lookups. -/
def CacheOk (db : UInt32 → Option CString) (cache : Option Queue) : Prop :=
  ∃ l, Honest db (cache.getD (initLru 19)) l

theorem CacheOk.aulookup (A : Allocator (Node Entry)) {cache : Option Queue} (h : CacheOk db cache)
    (size : Nat) (uid : UInt32) :
    ∃ cache', aulookup A db size cache uid = some (cache', directLookup db size uid) ∧
      CacheOk db cache' := by
  rw [Lru.aulookup, directLookup]
  by_cases hunset : uid = -1
  · rw [if_pos hunset, if_pos hunset]
    exact ⟨cache, rfl, h⟩
  by_cases hroot : uid = 0
  · simp_all
  · obtain ⟨l, hl⟩ := h
    obtain ⟨q', l', hname, hq'⟩ := hl.cachedName A hunset
    rw [if_neg hunset, if_neg hunset, if_neg hroot, if_neg hroot, hname]
    exact ⟨some q', rfl, l', hq'⟩

end

/-- **The cache is transparent**: any sequence of lookups returns what the database says. -/
theorem aulookups_eq (A : Allocator (Node Entry)) (db : UInt32 → Option CString) (size : Nat)
    (uids : List UInt32) :
    aulookups A db size none uids = some (uids.map (directLookup db size)) := by
  have hrun : ∀ cache, CacheOk db cache →
      aulookups A db size cache uids = some (uids.map (directLookup db size)) := by
    induction uids with
    | nil => exact fun _ _ => rfl
    | cons uid uids ih =>
      intro cache hcache
      obtain ⟨cache', hlookup, hcache'⟩ := hcache.aulookup A size uid
      simp only [aulookups, hlookup, bind_eq_bind, bind_some, ih cache' hcache', map_cons]
  exact hrun none ⟨[], initLru_honest db⟩

end LibAudit.Auparse.Lru
