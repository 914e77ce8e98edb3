import LibAudit.Records.Timestamp
import LibAudit.Tables.MsgType

/-!
# How `ausearch` reads a log

`ausearch-lol.c` puts the records of a log together to events, in slots like those of the feed of
`auparse`.  There are differences: lines outside the time that was asked for are dropped, an event is
judged by the type of its first record, and the slots are only looked through when a new event starts.

With a checkpoint, events that are not complete at the end of the log are left for the next run: so
the events of a log that has grown begin with those of the log as it was (`deliveries_append`).

A `Line` is what one `fgets` returns.  Records know the line that they were read from, so that equal
texts in different places are different records.
-/

namespace LibAudit.Search

open Records Slots Tables List

/-! ## Records -/

/-- What one `fgets` returns, and what lies behind the copy of it on the stack. -/
structure Line where
  buff : CString
  junk : Bytes
  deriving DecidableEq

/-- `lnode`. -/
structure Lnode where
  message : Bytes
  type : Int32
  lineNumber : Nat
  deriving DecidableEq

/-- `llist`: an event and its records. -/
abbrev Llist := EventId × List Lnode

/-- `l->e.type`: the type of the record that the event started with. -/
def eventType (records : List Lnode) : Int32 := (records.head?.map Lnode.type).getD 0

/-- `start_time`, `end_time`, and what `match` decides from the other options. -/
structure Filter where
  startTime : Int64
  endTime : Int64
  accepts : Llist → Bool

/-- The seconds are outside the time that was asked for. -/
def Filter.outside (f : Filter) (sec : Int64) : Bool :=
  (f.startTime != 0 && decide (sec < f.startTime)) || (f.endTime != 0 && decide (f.endTime < sec))

/-- `extract_timestamp`.  The names of the node and of the type are read after the words behind them
have been cut off. -/
def extractTimestamp (f : Filter) (line : Line) : Option (EventId × Int32) :=
  match (Mem.ofLine line.buff.bytes line.junk).strsplit 0 with
  | (_, none) => none
  | (m, some (ptr, saved)) =>
    let isNode := m.getD ptr 0 = 110
    let tnode := if isNode then some (ptr + 5) else none
    let next := if isNode then m.strsplitNext saved else (m, some (ptr, saved))
    -- without a type there is no word after it either
    let ttype := (next.2.map (·.1)).getD 0 + 5
    match next.1.strsplitNext (next.2.bind (·.2)) with
    | (_, none) => none
    | (m, some (ptr, _)) =>
      (m.stampStart ptr).bind fun start =>
        let m := m.cutStamp start
        (str2event (m.str start) (tnode.map m.str)).bind fun e =>
          if f.outside e.sec then none
          else some (e, Int32.ofInt (auditNameToMsgType (m.str ttype)))

/-- An event whose first record has this type has no other records. -/
def singleRecord (type : Int32) : Bool :=
  decide (type.toInt = auditProctitle ∨ type.toInt < auditFirstEvent ∨
    auditFirstAnomMsg ≤ type.toInt ∨ type.toInt = auditKernel ∨
    (auditMacUnlblAllow ≤ type.toInt ∧ type.toInt ≤ auditMacCalipsoDel))

/-- The test of `check_events` at time `sec`. -/
def isDone (sec : Int64) (e : EventId) (records : List Lnode) : Bool :=
  decide (e.sec.toInt + 2 ≤ sec.toInt) || singleRecord (eventType records)

/-- `lol`. -/
abbrev Lol := Table EventId Lnode

/-- `lol_add_record`: the slots afterwards, and whether the record was added. -/
def lolAddRecord (f : Filter) (lo : Lol) (n : Nat) (line : Line) : Lol × Bool :=
  match extractTimestamp f line with
  | none => (lo, false)
  | some (e, type) =>
    let node : Lnode := ⟨line.buff.bytes, type, n⟩
    match extend e node lo with
    | some lo => (lo, true)
    | none =>
      -- standalone EOE, the main event was already marked complete
      if type.toInt = auditEoe then (lo, false)
      else (check (isDone e.sec) (insert e node lo), true)

theorem lolAddRecord_eq_false {f : Filter} {lo lo' : Lol} {n : Nat} {line : Line}
    (h : lolAddRecord f lo n line = (lo', false)) : lo' = lo := by
  unfold lolAddRecord at h
  grind

/-- `get_ready_event`. -/
def getReadyEvent (lo : Lol) : Option (Llist × Lol) := takeReady EventId.later lo

/-- The loop of `get_record`, with a checkpoint file: the event to return, the slots and the lines
that have not been read, which are numbered from `n` on. -/
def readLines (f : Filter) (lo : Lol) : Nat → List Line → Option Llist × Lol × Nat × List Line
  | n, [] =>
    match getReadyEvent lo with
    | some (l, lo) => (some l, lo, n, [])
    | none => (none, lo, n, [])
  | n, line :: rest =>
    match lolAddRecord f lo n line with
    | (lo, true) =>
      match getReadyEvent lo with
      | some (l, lo) => (some l, lo, n + 1, rest)
      | none => readLines f lo (n + 1) rest
    | (lo, false) => readLines f lo (n + 1) rest

/-- `get_record`. -/
def getRecord (f : Filter) (lo : Lol) (n : Nat) (lines : List Line) :
    Option Llist × Lol × Nat × List Line :=
  match getReadyEvent lo with
  | some (l, lo) => (some l, lo, n, lines)
  | none => readLines f lo n lines

/-! ## Reading on -/

variable {f : Filter} {lo lo' : Lol} {l : Llist} {n n' : Nat} {lines rest : List Line}

/-- What a call of `readLines` that returns an event has read, and that it would not read on if the
log were longer. -/
theorem readLines_eq_some (hdrained : getReadyEvent lo = none)
    (h : readLines f lo n lines = (some l, lo', n', rest)) (more : List Line) :
    rest.length < lines.length ∧ n' + rest.length = n + lines.length ∧
      readLines f lo n (lines ++ more) = (some l, lo', n', rest ++ more) := by
  induction lines generalizing lo n with
  | nil =>
    rw [readLines, hdrained] at h
    cases h
  | cons line lines ih =>
    rw [readLines] at h
    rw [cons_append, readLines, length_cons]
    split at h
    · rename_i lo₁ hadd
      split at h
      · obtain ⟨⟩ := h
        exact ⟨Nat.lt_succ_self _, by omega, rfl⟩
      · rename_i hnone
        obtain ⟨hlt, hn, happ⟩ := ih hnone h
        exact ⟨by omega, by omega, happ⟩
    · rename_i lo₁ hadd
      obtain rfl := lolAddRecord_eq_false hadd
      obtain ⟨hlt, hn, happ⟩ := ih hdrained h
      exact ⟨by omega, by omega, happ⟩

/-- A call that returns no event has read everything, and the next one goes on from there. -/
theorem readLines_eq_none (hdrained : getReadyEvent lo = none)
    (h : readLines f lo n lines = (none, lo', n', rest)) (more : List Line) :
    getReadyEvent lo' = none ∧
      readLines f lo n (lines ++ more) = readLines f lo' (n + lines.length) more := by
  induction lines generalizing lo n with
  | nil =>
    rw [readLines, hdrained] at h
    obtain ⟨⟩ := h
    exact ⟨hdrained, rfl⟩
  | cons line lines ih =>
    rw [readLines] at h
    have hlen : n + (line :: lines).length = n + 1 + lines.length := by
      rw [length_cons]
      omega
    rw [cons_append, readLines, hlen]
    split at h
    · rename_i lo₁ hadd
      split at h
      · cases h
      · rename_i hnone
        exact ih hnone h
    · rename_i lo₁ hadd
      obtain rfl := lolAddRecord_eq_false hadd
      exact ih hdrained h

/-- An event that is returned was read, or is one less that is complete. -/
theorem getRecord_decreases (h : getRecord f lo n lines = (some l, lo', n', rest)) :
    Prod.Lex (· < ·) (· < ·) (rest.length, (finished lo').length)
      (lines.length, (finished lo).length) := by
  unfold getRecord at h
  split at h
  · rename_i hready
    obtain ⟨⟩ := h
    refine Prod.Lex.right _ ?_
    rw [(takeReady_eq_some hready).2.length_eq]
    exact Nat.lt_succ_self _
  · rename_i hnone
    exact Prod.Lex.left _ _ (readLines_eq_some hnone h []).1

/-- All events that `get_record` returns, one call after the other, and the slots when there are no
more. -/
def deliveries (f : Filter) (lo : Lol) (n : Nat) (lines : List Line) : List Llist × Lol :=
  match _h : getRecord f lo n lines with
  | (none, lo', _, _) => ([], lo')
  | (some l, lo', n', rest) =>
    let later := deliveries f lo' n' rest
    (l :: later.1, later.2)
termination_by (lines.length, (finished lo).length)
decreasing_by exact getRecord_decreases _h

theorem deliveries_of_none (h : getRecord f lo n lines = (none, lo', n', rest)) :
    deliveries f lo n lines = ([], lo') := by
  rw [deliveries]
  grind

theorem deliveries_of_some (h : getRecord f lo n lines = (some l, lo', n', rest)) :
    deliveries f lo n lines =
      (l :: (deliveries f lo' n' rest).1, (deliveries f lo' n' rest).2) := by
  rw [deliveries]
  grind

theorem getRecord_append_some (h : getRecord f lo n lines = (some l, lo', n', rest)) (more : List Line) :
    n' + rest.length = n + lines.length ∧
      getRecord f lo n (lines ++ more) = (some l, lo', n', rest ++ more) := by
  unfold getRecord at h ⊢
  split at h
  · obtain ⟨⟩ := h
    exact ⟨rfl, rfl⟩
  · rename_i hnone
    exact (readLines_eq_some hnone h more).2

theorem getRecord_append_none (h : getRecord f lo n lines = (none, lo', n', rest)) (more : List Line) :
    getRecord f lo n (lines ++ more) = getRecord f lo' (n + lines.length) more := by
  unfold getRecord at h
  split at h
  · cases h
  · rename_i hnone
    obtain ⟨hdrained, happ⟩ := readLines_eq_none hnone h more
    rw [getRecord, getRecord, hnone, hdrained]
    exact happ

theorem deliveries_congr {lo₁ lo₂ : Lol} {n₁ n₂ : Nat} {a b : List Line}
    (h : getRecord f lo₁ n₁ a = getRecord f lo₂ n₂ b) :
    deliveries f lo₁ n₁ a = deliveries f lo₂ n₂ b := by
  rcases hb : getRecord f lo₂ n₂ b with ⟨_ | l, lo', n', rest⟩
  · rw [deliveries_of_none hb, deliveries_of_none (h.trans hb)]
  · rw [deliveries_of_some hb, deliveries_of_some (h.trans hb)]

/-- **A log that has grown.**  Its events are those of the log as it was, and then those of the lines
behind it, read with the slots as they were left. -/
theorem deliveries_append (f : Filter) (lo : Lol) (n : Nat) (lines more : List Line) :
    deliveries f lo n (lines ++ more) =
      let old := deliveries f lo n lines
      let new := deliveries f old.2 (n + lines.length) more
      (old.1 ++ new.1, new.2) := by
  induction lo, n, lines using deliveries.induct f with
  | case1 lo n lines lo' n' rest h =>
    rw [deliveries_of_none h]
    exact deliveries_congr (getRecord_append_none h more)
  | case2 lo n lines l lo' n' rest h ih =>
    obtain ⟨hn, happ⟩ := getRecord_append_some h more
    rw [deliveries_of_some happ, deliveries_of_some h, ih, hn]
    rfl

/-! ## What holds throughout a run -/

/-- `I`, of the events returned so far, the slots and the lines not read yet, is kept by everything
that happens in a run. -/
structure Kept (f : Filter) (I : List Llist → Lol → Nat → List Line → Prop) : Prop where
  ready : ∀ {out lo n lines l lo'}, I out lo n lines → getReadyEvent lo = some (l, lo') →
    I (out ++ [l]) lo' n lines
  line : ∀ {out lo n line rest}, I out lo n (line :: rest) →
    I out (lolAddRecord f lo n line).1 (n + 1) rest

section Runs

variable {I : List Llist → Lol → Nat → List Line → Prop} {out : List Llist} {o : Option Llist}

theorem Kept.readLines (h : Kept f I) (hI : I out lo n lines)
    (hr : readLines f lo n lines = (o, lo', n', rest)) :
    I (out ++ o.toList) lo' n' rest ∧ (o = none → rest = []) := by
  induction lines generalizing lo n with
  | nil =>
    rw [Search.readLines] at hr
    split at hr
    · rename_i hready
      obtain ⟨⟩ := hr
      exact ⟨h.ready hI hready, nofun⟩
    · obtain ⟨⟩ := hr
      exact ⟨by simpa using hI, fun _ => rfl⟩
  | cons line lines ih =>
    have hline := h.line hI
    rw [Search.readLines] at hr
    split at hr
    · rename_i hadd
      rw [hadd] at hline
      split at hr
      · rename_i hready
        obtain ⟨⟩ := hr
        exact ⟨h.ready hline hready, nofun⟩
      · exact ih hline hr
    · rename_i hadd
      rw [hadd] at hline
      exact ih hline hr

theorem Kept.getRecord (h : Kept f I) (hI : I out lo n lines)
    (hr : getRecord f lo n lines = (o, lo', n', rest)) :
    I (out ++ o.toList) lo' n' rest ∧ (o = none → rest = []) := by
  unfold Search.getRecord at hr
  split at hr
  · rename_i hready
    obtain ⟨⟩ := hr
    exact ⟨h.ready hI hready, nofun⟩
  · exact h.readLines hI hr

/-- The rule of invariants: what is kept holds at the end of the log. -/
theorem Kept.deliveries (h : Kept f I) (hI : I out lo n lines) :
    ∃ n', I (out ++ (deliveries f lo n lines).1) (deliveries f lo n lines).2 n' [] := by
  induction lo, n, lines using deliveries.induct f generalizing out with
  | case1 lo n lines lo' n' rest hr =>
    obtain ⟨hend, hrest⟩ := h.getRecord hI hr
    obtain rfl := hrest rfl
    rw [deliveries_of_none hr]
    exact ⟨n', hend⟩
  | case2 lo n lines l lo' n' rest hr ih =>
    have hnext := ih (h.getRecord hI hr).1
    rw [deliveries_of_some hr]
    simpa using hnext

end Runs

/-- What `lol_add_record` can do. -/
theorem lolAddRecord_cases (f : Filter) (lo : Lol) (n : Nat) (line : Line) :
    (lolAddRecord f lo n line).1 = lo ∨
      ∃ e type, extractTimestamp f line = some (e, type) ∧
        (extend e ⟨line.buff.bytes, type, n⟩ lo = some (lolAddRecord f lo n line).1 ∨
          (lolAddRecord f lo n line).1 =
            check (isDone e.sec) (insert e ⟨line.buff.bytes, type, n⟩ lo)) := by
  unfold lolAddRecord
  grind

/-! ### Every record is in one event -/

/-- No line is in two records of these events and slots, and no event is without records. -/
structure Distinct (out : List Llist) (lo : Lol) (n : Nat) (_lines : List Line) : Prop where
  nodup : ((out.flatMap Prod.snd ++ pending lo).map Lnode.lineNumber).Nodup
  below : ∀ r ∈ out.flatMap Prod.snd ++ pending lo, r.lineNumber < n
  returned : ∀ l ∈ out, l.2 ≠ []
  slots : Every (fun l : Llist => l.2 ≠ []) lo

theorem Distinct.add {out : List Llist} {line : Line} {r : Lnode} (h : Distinct out lo n (line :: rest))
    (hn : r.lineNumber = n) (hp : (pending lo').Perm (pending lo ++ [r]))
    (hslots : Every (fun l : Llist => l.2 ≠ []) lo') : Distinct out lo' (n + 1) rest := by
  have hperm : (out.flatMap Prod.snd ++ pending lo').Perm
      ((out.flatMap Prod.snd ++ pending lo) ++ [r]) := by
    rw [append_assoc]
    exact hp.append_left _
  refine ⟨?_, ?_, h.returned, hslots⟩
  · rw [(hperm.map _).nodup_iff, map_append, nodup_append]
    refine ⟨h.nodup, nodup_singleton _, ?_⟩
    intro a ha b hb
    obtain ⟨r', hr', rfl⟩ := mem_map.mp ha
    rw [map_singleton, mem_singleton] at hb
    have := h.below r' hr'
    omega
  · intro r' hr'
    rcases mem_append.mp (hperm.mem_iff.mp hr') with hr' | hr'
    · exact (h.below r' hr').trans (Nat.lt_succ_self n)
    · rw [mem_singleton.mp hr', hn]
      exact Nat.lt_succ_self n

theorem kept_distinct (f : Filter) : Kept f Distinct where
  ready {out lo n lines l lo'} h hready := by
    have hperm : ((out ++ [l]).flatMap Prod.snd ++ pending lo').Perm
        (out.flatMap Prod.snd ++ pending lo) := by
      rw [flatMap_append, append_assoc]
      refine .append_left _ ?_
      simpa using pending_takeReady hready
    obtain ⟨hl, hslots⟩ := h.slots.takeReady hready
    refine ⟨(hperm.map _).nodup_iff.mpr h.nodup, fun r hr => h.below r (hperm.mem_iff.mp hr), ?_, hslots⟩
    exact forall_mem_append.mpr ⟨h.returned, forall_mem_singleton.mpr hl⟩
  line {out lo n line rest} h := by
    rcases lolAddRecord_cases f lo n line with hsame | ⟨e, type, -, hext | hnew⟩
    · rw [hsame]
      exact ⟨h.nodup, fun r hr => (h.below r hr).trans (Nat.lt_succ_self n), h.returned, h.slots⟩
    · refine h.add rfl (pending_extend hext) (h.slots.extend hext fun _ _ => ?_)
      exact append_ne_nil_of_right_ne_nil _ (cons_ne_nil _ _)
    · rw [hnew]
      refine h.add rfl ((pending_check _ _).trans (pending_insert _ _ _)) ?_
      exact (h.slots.insert (cons_ne_nil _ _)).check _

/-- An event that was returned is not in the slots any more. -/
theorem notMem_finished_of_mem_deliveries {l : Llist} (h : l ∈ (deliveries f [] n lines).1) :
    l ∉ finished (deliveries f [] n lines).2 := by
  intro hfin
  have hstart : Distinct [] [] n lines := ⟨nodup_nil, nofun, nofun, Every.nil⟩
  obtain ⟨n', hend⟩ := (kept_distinct f).deliveries hstart
  rw [nil_append] at hend
  obtain ⟨r, hr⟩ := exists_mem_of_ne_nil _ (hend.returned l h)
  have hdisj := hend.nodup
  rw [map_append, nodup_append] at hdisj
  refine hdisj.2.2 _ (mem_map_of_mem (mem_flatMap_of_mem h hr)) _ (mem_map_of_mem ?_) rfl
  exact mem_append_left _ (mem_flatMap_of_mem hfin hr)

/-! ### Events are returned in the order of their seconds -/

/-- The time stamp of the line, if it has one, is not before `sec`. -/
def NotBefore (f : Filter) (sec : Int64) (line : Line) : Prop :=
  ∀ e type, extractTimestamp f line = some (e, type) → sec.toInt ≤ e.sec.toInt

theorem notBefore_of_eq {line : Line} {e : EventId} {type : Int32} {sec : Int64}
    (h : extractTimestamp f line = some (e, type)) (hle : sec.toInt ≤ e.sec.toInt) :
    NotBefore f sec line := by
  intro e' type' h'
  obtain ⟨⟩ := h.symm.trans h'
  exact hle

/-- The lines have nondecreasing time stamps. -/
def TimeOrdered (f : Filter) (lines : List Line) : Prop :=
  lines.Pairwise fun a b => ∀ e type, extractTimestamp f a = some (e, type) → NotBefore f e.sec b

end LibAudit.Search
