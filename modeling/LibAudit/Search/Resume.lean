import LibAudit.Search.Checkpoint

/-!
# Searching a log that grows

With a checkpoint file, `ausearch` goes on where the last search stopped: it remembers the last event
that was complete, whether or not it was searched for, and when it starts again it waits for that event.
But it only waits with the events that are searched for.  If the last complete event was not one of
them, it is never found: the events behind it are not printed, and if one of them is more than two
seconds younger the checkpoint is said to be corrupted.

`exactlyOnce_iff` says exactly when two searches print every event once.
-/

namespace LibAudit.Search

open Slots List Option Event

/-! ## One search -/

/-- What `chkpt_output_decision` returns, from 0 to 3. -/
inductive Decision where
  | noOutput
  | output
  | outputAfter
  | corrupted
  deriving DecidableEq

/-- `MAX_EVENT_DELTA_SECS`. -/
def maxEventDeltaSecs : Int := 2

/-- The event is so much younger than the checkpoint that it should not come before it. -/
def isLate (levent e : Event) : Bool :=
  decide (levent.id.sec.toInt + maxEventDeltaSecs < e.id.sec.toInt)

/-- `chkpt_output_decision`, with the value of `can_output` before and after. -/
def chkptOutputDecision (chkpt : Option Event) (timeonly canOutput : Bool) (e : Event) :
    Decision × Bool :=
  if canOutput then (.output, true)
  else match chkpt with
    | none => (.output, true)
    | some levent =>
      if levent.id.sec = 0 then (.output, true)
      else if timeonly = true ∧ (levent.id.sec < e.id.sec ∨
          (levent.id.sec = e.id.sec ∧ levent.id.milli ≤ e.id.milli)) then (.output, true)
      -- the same time, serial number and type, and the same node or none
      else if levent = e then (.outputAfter, true)
      else if isLate levent e then (.corrupted, false)
      else (.noOutput, false)

/-- What `process_log_fd` printed, the last event it came across, and whether it found the checkpoint
to be corrupted. -/
structure Outcome where
  printed : List Llist
  lastEvent : Event
  corrupted : Bool

/-- `process_log_fd`, for the events that `get_record` returns. -/
def processLogFd (f : Filter) (chkpt : Option Event) (timeonly : Bool) :
    Bool → Event → List Llist → Outcome
  | _, lastEvent, [] => ⟨[], lastEvent, false⟩
  | canOutput, lastEvent, l :: ls =>
    if f.accepts l then
      match chkptOutputDecision chkpt timeonly canOutput (toEvent l) with
      | (.output, canOutput) =>
        let rest := processLogFd f chkpt timeonly canOutput (toEvent l) ls
        { rest with printed := l :: rest.printed }
      | (.corrupted, _) => ⟨[], lastEvent, true⟩
      | (_, canOutput) => processLogFd f chkpt timeonly canOutput (toEvent l) ls
    else processLogFd f chkpt timeonly canOutput (toEvent l) ls

/-- Where the log comes from: a file that was named, or the logs that `auditd` is configured to write,
here one file. -/
inductive Input where
  | userFile
  | logs
  deriving DecidableEq

/-- The log on disk: its device and inode, and its lines. -/
structure Log where
  dev : UInt64
  ino : UInt64
  lines : List Line

/-- Whether `process_logs` finds the file of the checkpoint; a file that was named is not asked. -/
def findsFile (input : Input) (dev ino : UInt64) (c : ChkPt) : Bool :=
  decide (input = .userFile) || (decide (c.dev = dev) && decide (c.ino = ino))

/-- What a search leaves: its exit status, what it printed, and the checkpoint file. -/
structure Result where
  status : Nat
  printed : List Llist
  checkpoint : Option Bytes

/-- The search itself, after the checkpoint has been read. -/
def searchFrom (f : Filter) (log : Log) (file : Option Bytes) (chkpt : Option Event) : Result :=
  let o := processLogFd f chkpt false false zero (deliveries f [] 0 log.lines).1
  if o.corrupted then ⟨12, o.printed, file⟩
  else ⟨if o.printed = [] then 1 else 0, o.printed, some (saveChkPt log.dev log.ino o.lastEvent)⟩

/-- `main`, with a checkpoint file that may not exist yet. -/
def ausearch (f : Filter) (input : Input) (log : Log) : Option Bytes → Result
  | none => searchFrom f log none none
  | some text =>
    match loadChkPt text with
    | none => ⟨10, [], some text⟩
    | some c =>
      if findsFile input log.dev log.ino c then searchFrom f log (some text) (some c.levent)
      else ⟨10, [], some text⟩

/-! ## What a search prints -/

variable {f : Filter}

/-- What is printed of the events that are searched for, if the search waits for `levent`; `none` if
the checkpoint is found to be corrupted. -/
def waitFor (levent : Event) : List Llist → Option (List Llist)
  | [] => some []
  | l :: ls =>
    if toEvent l = levent then some ls
    else if isLate levent (toEvent l) then none
    else waitFor levent ls

/-- The same for any checkpoint: one without an event is not waited for. -/
def resume (chkpt : Option Event) (ls : List Llist) : Option (List Llist) :=
  match chkpt with
  | none => some ls
  | some levent => if levent.id.sec = 0 then some ls else waitFor levent ls

/-- The last event of a log. -/
def lastOf (start : Event) (ls : List Llist) : Event := (ls.getLast?.map toEvent).getD start

theorem lastOf_cons (start : Event) (l : Llist) (ls : List Llist) :
    lastOf start (l :: ls) = lastOf (toEvent l) ls := by
  simp [lastOf, getLast?_cons]

theorem chkptOutputDecision_on (chkpt : Option Event) (timeonly : Bool) (e : Event) :
    chkptOutputDecision chkpt timeonly true e = (.output, true) := by
  cases chkpt <;> rfl

theorem chkptOutputDecision_some (levent e : Event) : chkptOutputDecision (some levent) false false e =
      if levent.id.sec = 0 then (.output, true)
      else if levent = e then (.outputAfter, true)
      else if isLate levent e then (.corrupted, false)
      else (.noOutput, false) := by
  simp [chkptOutputDecision]

/-- Once output is on, everything that is searched for is printed. -/
theorem processLogFd_on (chkpt : Option Event) (start : Event) (ls : List Llist) :
    processLogFd f chkpt false true start ls = ⟨ls.filter f.accepts, lastOf start ls, false⟩ := by
  induction ls generalizing start with
  | nil => rfl
  | cons l ls ih =>
    rw [processLogFd, lastOf_cons]
    split
    · rename_i hl
      rw [chkptOutputDecision_on, filter_cons_of_pos hl]
      simp only [ih]
    · rename_i hl
      rw [ih, filter_cons_of_neg hl]

/-- **What a search prints** is decided by the events that are searched for alone. -/
theorem processLogFd_off (chkpt : Option Event) (start : Event) (ls : List Llist) :
    (processLogFd f chkpt false false start ls).printed =
        (resume chkpt (ls.filter f.accepts)).getD [] ∧
      (processLogFd f chkpt false false start ls).corrupted =
        (resume chkpt (ls.filter f.accepts)).isNone ∧
      ((resume chkpt (ls.filter f.accepts)).isSome →
        (processLogFd f chkpt false false start ls).lastEvent = lastOf start ls) := by
  induction ls generalizing start with
  | nil =>
    have hnil : resume chkpt [] = some [] := by
      unfold resume
      split
      · rfl
      · split <;> rfl
    rw [filter_nil, hnil]
    exact ⟨rfl, rfl, fun _ => rfl⟩
  | cons l ls ih =>
    rw [processLogFd, lastOf_cons]
    by_cases hl : f.accepts l
    · rw [if_pos hl, filter_cons_of_pos hl]
      cases chkpt with
      | none => simp [chkptOutputDecision, processLogFd_on, resume]
      | some levent =>
        have hrest := ih (toEvent l)
        rw [chkptOutputDecision_some]
        dsimp only [resume] at hrest ⊢
        by_cases hzero : levent.id.sec = 0
        · simp [hzero, processLogFd_on]
        rw [if_neg hzero] at hrest
        rw [if_neg hzero, if_neg hzero, waitFor]
        by_cases hhit : levent = toEvent l
        · simp [← hhit, processLogFd_on]
        grind
    · rw [if_neg hl, filter_cons_of_neg hl]
      exact ih (toEvent l)

/-! ## Two searches -/

/-- `old` was printed before: the events that are printed from the checkpoint on are the `new` ones. -/
def Resumes (levent : Event) (old new : List Llist) : Prop :=
  if levent.id.sec = 0 then old = []
  else
    -- the last event that was printed is the first that looks like the checkpoint
    (∃ pre l, old = pre ++ [l] ∧ toEvent l = levent ∧
      ∀ l' ∈ pre, toEvent l' ≠ levent ∧ isLate levent (toEvent l') = false) ∨
    -- none does, and there is nothing to print
    (new = [] ∧ ∀ l' ∈ old, toEvent l' ≠ levent ∧ isLate levent (toEvent l') = false)

variable {levent : Event} {old new : List Llist}

theorem waitFor_tail {ls r : List Llist} (h : waitFor levent ls = some r) :
    r <:+ ls ∧ (ls ≠ [] → r.length < ls.length) := by
  induction ls with
  | nil =>
    obtain ⟨⟩ := h
    exact ⟨suffix_rfl, fun hne => absurd rfl hne⟩
  | cons l ls ih =>
    rw [waitFor] at h
    grind

theorem waitFor_append_iff : waitFor levent (old ++ new) = some new ↔
      (∃ pre l, old = pre ++ [l] ∧ toEvent l = levent ∧
        ∀ l' ∈ pre, toEvent l' ≠ levent ∧ isLate levent (toEvent l') = false) ∨
      (new = [] ∧ ∀ l' ∈ old, toEvent l' ≠ levent ∧ isLate levent (toEvent l') = false) := by
  induction old with
  | nil =>
    rw [nil_append]
    constructor
    · intro h
      refine .inr ⟨?_, nofun⟩
      by_contra hne
      exact Nat.lt_irrefl _ ((waitFor_tail h).2 hne)
    · rintro (⟨pre, l, hnil, -⟩ | ⟨rfl, -⟩)
      · exact absurd hnil.symm (append_ne_nil_of_right_ne_nil _ (cons_ne_nil _ _))
      · rfl
  | cons l old ih =>
    rw [cons_append, waitFor]
    by_cases hhit : toEvent l = levent
    · rw [if_pos hhit, some.injEq, append_left_eq_self]
      constructor
      · rintro rfl
        exact .inl ⟨[], l, rfl, hhit, nofun⟩
      · rintro (⟨_ | ⟨l', pre⟩, l₁, heq, -, hpre⟩ | ⟨-, hall⟩)
        · exact (List.cons.inj heq).2
        · obtain ⟨rfl, -⟩ := List.cons.inj heq
          exact absurd hhit (hpre l mem_cons_self).1
        · exact absurd hhit (hall l mem_cons_self).1
    · rw [if_neg hhit]
      by_cases hlate : isLate levent (toEvent l) = true
      · rw [if_pos hlate]
        constructor
        · exact nofun
        · rintro (⟨_ | ⟨l', pre⟩, l₁, heq, hl₁, hpre⟩ | ⟨-, hall⟩)
          · obtain ⟨rfl, -⟩ := List.cons.inj heq
            exact absurd hl₁ hhit
          · obtain ⟨rfl, -⟩ := List.cons.inj heq
            cases (hlate.symm.trans (hpre l mem_cons_self).2)
          · cases (hlate.symm.trans (hall l mem_cons_self).2)
      · rw [if_neg hlate, ih]
        have hl : toEvent l ≠ levent ∧ isLate levent (toEvent l) = false :=
          ⟨hhit, (Bool.not_eq_true _).mp hlate⟩
        refine or_congr ?_ (and_congr Iff.rfl ?_)
        · constructor
          · grind
          · rintro ⟨_ | ⟨l', pre⟩, l₁, heq, hl₁, hpre⟩
            · obtain ⟨rfl, -⟩ := List.cons.inj heq
              exact absurd hl₁ hhit
            · grind
        · rw [forall_mem_cons]
          exact (and_iff_right hl).symm

/-- Exactly the new events are printed if the checkpoint is the right one. -/
theorem resume_append_iff : resume (some levent) (old ++ new) = some new ↔ Resumes levent old new := by
  unfold resume Resumes
  dsimp only
  split
  · rw [some.injEq, append_left_eq_self]
  · exact waitFor_append_iff

theorem resume_tail {ls r : List Llist} (h : resume (some levent) ls = some r) : r <:+ ls := by
  unfold resume at h
  dsimp only at h
  split at h
  · obtain ⟨⟩ := h
    exact suffix_rfl
  · exact (waitFor_tail h).1

/-- Nothing is printed twice and nothing is left out, for events `held` that cannot be printed. -/
theorem perm_append_iff {held r : List Llist} (hr : r <:+ old ++ new)
    (hheld : ∀ l ∈ held, l ∉ old ++ new) :
    (old ++ r).Perm (old ++ new ++ held) ↔ r = new ∧ held = [] := by
  rw [append_assoc, perm_append_left_iff]
  constructor
  · intro hperm
    have hnil : held = [] := by
      rw [eq_nil_iff_forall_not_mem]
      intro l hl
      exact hheld l hl (hr.mem (hperm.mem_iff.mpr (mem_append_right _ hl)))
    subst hnil
    rw [append_nil] at hperm
    have hsuf := suffix_of_suffix_length_le hr (suffix_append old new) hperm.length_eq.le
    exact ⟨hsuf.eq_of_length hperm.length_eq, rfl⟩
  · rintro ⟨rfl, rfl⟩
    rw [append_nil]

section TwoSearches

variable (f) (input : Input) (dev ino : UInt64) (lines more : List Line)

/-- All events that are complete at the end of a log. -/
def completeEvents : List Llist :=
  (deliveries f [] 0 lines).1 ++ finished (deliveries f [] 0 lines).2

/-- The search of the log as it is at first. -/
def firstSearch : Result := ausearch f input ⟨dev, ino, lines⟩ none

/-- The search of the log as it has become. -/
def secondSearch : Result :=
  ausearch f input ⟨dev, ino, lines ++ more⟩ (firstSearch f input dev ino lines).checkpoint

/-- Over two searches, every event that is searched for and complete at the end is printed once, and
neither search has anything against the checkpoint. -/
structure ExactlyOnce : Prop where
  printed : ((firstSearch f input dev ino lines).printed ++
      (secondSearch f input dev ino lines more).printed).Perm
    ((completeEvents f (lines ++ more)).filter f.accepts)
  accepted : ∀ status ∈ [10, 12], (firstSearch f input dev ino lines).status ≠ status ∧
    (secondSearch f input dev ino lines more).status ≠ status

/-- The events that the first search comes across. -/
def oldEvents : List Llist := (deliveries f [] 0 lines).1

/-- The events that are complete when `more` has been read, but were not before. -/
def newEvents : List Llist := (deliveries f (deliveries f [] 0 lines).2 lines.length more).1

/-- Events that are complete but have to wait for an older one. -/
def heldBack : List Llist :=
  finished (deliveries f (deliveries f [] 0 lines).2 lines.length more).2

theorem deliveries_two : deliveries f [] 0 (lines ++ more) =
    (oldEvents f lines ++ newEvents f lines more,
      (deliveries f (deliveries f [] 0 lines).2 lines.length more).2) := by
  rw [deliveries_append, Nat.zero_add]
  rfl

theorem firstSearch_eq : firstSearch f input dev ino lines =
    ⟨if (oldEvents f lines).filter f.accepts = [] then 1 else 0,
      (oldEvents f lines).filter f.accepts,
      some (saveChkPt dev ino (lastOf zero (oldEvents f lines)))⟩ := by
  obtain ⟨hprinted, hcorrupted, hlast⟩ := processLogFd_off (f := f) none zero (oldEvents f lines)
  rw [firstSearch, ausearch, searchFrom]
  rw [oldEvents] at *
  simp only [hprinted, hcorrupted, hlast rfl]
  rfl

theorem secondSearch_of_some {c : ChkPt}
    (hload : loadChkPt (saveChkPt dev ino (lastOf zero (oldEvents f lines))) = some c)
    (hfile : findsFile input dev ino c = true) {r : Option (List Llist)}
    (hr : resume (some c.levent) ((oldEvents f lines ++ newEvents f lines more).filter f.accepts) = r) :
    (secondSearch f input dev ino lines more).printed = r.getD [] ∧
      (secondSearch f input dev ino lines more).status =
        if r = none then 12 else if r = some [] then 1 else 0 := by
  subst hr
  obtain ⟨hprinted, hcorrupted, -⟩ := processLogFd_off (f := f) (some c.levent) zero
    (oldEvents f lines ++ newEvents f lines more)
  rw [secondSearch, firstSearch_eq, ausearch, hload]
  dsimp only
  rw [if_pos hfile, searchFrom, deliveries_two]
  rw [hcorrupted, hprinted]
  cases resume (some c.levent) ((oldEvents f lines ++ newEvents f lines more).filter f.accepts) with
  | none => exact ⟨rfl, rfl⟩
  | some r => simp

theorem secondSearch_status_of_not
    (h : ¬ ∃ c, loadChkPt (saveChkPt dev ino (lastOf zero (oldEvents f lines))) = some c ∧
      findsFile input dev ino c = true) :
    (secondSearch f input dev ino lines more).status = 10 := by
  rw [secondSearch, firstSearch_eq, ausearch]
  grind

/-- An event that is held back has not been printed. -/
theorem notMem_of_mem_heldBack {l : Llist} (h : l ∈ heldBack f lines more) :
    l ∉ oldEvents f lines ++ newEvents f lines more := by
  intro hmem
  have hreturned : l ∈ (deliveries f [] 0 (lines ++ more)).1 := by
    rw [deliveries_two]
    exact hmem
  have hnot := notMem_finished_of_mem_deliveries hreturned
  rw [deliveries_two] at hnot
  exact hnot h

theorem status_ne {status n : Nat} (hmem : status ∈ [10, 12]) (hn : n ≤ 1) : n ≠ status := by
  rintro rfl
  simp only [mem_cons, not_mem_nil, or_false] at hmem
  omega

theorem filter_completeEvents : (completeEvents f (lines ++ more)).filter f.accepts =
    (oldEvents f lines).filter f.accepts ++ (newEvents f lines more).filter f.accepts ++
      (heldBack f lines more).filter f.accepts := by
  rw [completeEvents, deliveries_two, filter_append, filter_append]
  rfl

/-- The search goes on with the new events, and none is held back. -/
theorem exactlyOnce_of_resumes {c : ChkPt} (hnil : (heldBack f lines more).filter f.accepts = [])
    (hload : loadChkPt (saveChkPt dev ino (lastOf zero (oldEvents f lines))) = some c)
    (hfile : findsFile input dev ino c = true)
    (hresumes : Resumes c.levent ((oldEvents f lines).filter f.accepts)
      ((newEvents f lines more).filter f.accepts)) : ExactlyOnce f input dev ino lines more := by
  have hfirst := firstSearch_eq f input dev ino lines
  have hr := resume_append_iff.mpr hresumes
  rw [← filter_append] at hr
  obtain ⟨hsecond, hstatus⟩ := secondSearch_of_some f input dev ino lines more hload hfile hr
  refine ⟨?_, fun status hmem => ⟨?_, ?_⟩⟩
  · rw [hsecond, hfirst, filter_completeEvents, hnil, append_nil]
    exact .refl _
  · have hsmall : (firstSearch f input dev ino lines).status ≤ 1 := by
      rw [hfirst]
      dsimp only
      split <;> omega
    exact status_ne hmem hsmall
  · have hsmall : (secondSearch f input dev ino lines more).status ≤ 1 := by
      rw [hstatus, if_neg (some_ne_none _)]
      split <;> omega
    exact status_ne hmem hsmall

/-- **When two searches print every event once.**  The checkpoint must be read, the search must go on
from the right event, and no event that is searched for may be held back by an older one that is not
complete. -/
theorem exactlyOnce_iff : ExactlyOnce f input dev ino lines more ↔
    (heldBack f lines more).filter f.accepts = [] ∧
      ∃ c, loadChkPt (saveChkPt dev ino (lastOf zero (oldEvents f lines))) = some c ∧
        findsFile input dev ino c = true ∧
        Resumes c.levent ((oldEvents f lines).filter f.accepts)
          ((newEvents f lines more).filter f.accepts) := by
  have hheld : ∀ l ∈ (heldBack f lines more).filter f.accepts,
      l ∉ (oldEvents f lines).filter f.accepts ++ (newEvents f lines more).filter f.accepts := by
    intro l hl hmem
    rw [← filter_append] at hmem
    exact notMem_of_mem_heldBack f lines more (mem_of_mem_filter hl) (mem_of_mem_filter hmem)
  constructor
  · rintro ⟨hprinted, haccepted⟩
    obtain ⟨c, hload, hfile⟩ : ∃ c, loadChkPt (saveChkPt dev ino
        (lastOf zero (oldEvents f lines))) = some c ∧ findsFile input dev ino c = true := by
      by_contra hnot
      exact (haccepted 10 (by decide)).2 (secondSearch_status_of_not f input dev ino lines more hnot)
    cases hr : resume (some c.levent)
      ((oldEvents f lines ++ newEvents f lines more).filter f.accepts) with
    | none =>
      have := (secondSearch_of_some f input dev ino lines more hload hfile hr).2
      exact absurd this (haccepted 12 (by decide)).2
    | some r =>
      obtain ⟨hsecond, -⟩ := secondSearch_of_some f input dev ino lines more hload hfile hr
      rw [hsecond, firstSearch_eq, filter_completeEvents] at hprinted
      rw [filter_append] at hr
      obtain ⟨rfl, hnil⟩ := (perm_append_iff (resume_tail hr) hheld).mp hprinted
      exact ⟨hnil, c, hload, hfile, resume_append_iff.mp hr⟩
  · rintro ⟨hnil, c, hload, hfile, hresumes⟩
    exact exactlyOnce_of_resumes f input dev ino lines more hnil hload hfile hresumes

end TwoSearches

/-! ### A last event that is not searched for -/

section LastNotAccepted

/-- A line with this text. -/
def lineOf (s : String) : Line := ⟨cstr (ascii s), []⟩

/-- A login. -/
def loginLine : Line := lineOf "type=USER_LOGIN msg=audit(100.000:1): \n"

/-- Something else, a second later. -/
def authLine : Line := lineOf "type=USER_AUTH msg=audit(101.000:2): \n"

/-- Another login, one more second later. -/
def laterLoginLine : Line := lineOf "type=USER_LOGIN msg=audit(102.000:3): \n"

/-- `-m USER_LOGIN`. -/
def loginFilter : Filter := ⟨0, 0, fun l => eventType l.2 == 1112⟩

/-- The event of `loginLine`. -/
def login : Llist := (⟨100, 0, 1, none⟩, [⟨loginLine.buff.bytes, 1112, 0⟩])

/-- The event of `authLine`. -/
def auth : Llist := (⟨101, 0, 2, none⟩, [⟨authLine.buff.bytes, 1100, 1⟩])

/-- The event of `laterLoginLine`. -/
def laterLogin : Llist := (⟨102, 0, 3, none⟩, [⟨laterLoginLine.buff.bytes, 1112, 2⟩])

theorem deliveries_login_auth :
    deliveries loginFilter [] 0 [loginLine, authLine] = ([login, auth], [.empty]) := by
  have h₁ : getRecord loginFilter [] 0 [loginLine, authLine] =
      (some login, [.empty], 1, [authLine]) := by decide +kernel
  have h₂ : getRecord loginFilter [.empty] 1 [authLine] = (some auth, [.empty], 2, []) := by
    decide +kernel
  have h₃ : getRecord loginFilter [.empty] 2 [] = (none, [.empty], 2, []) := by decide +kernel
  rw [deliveries_of_some h₁, deliveries_of_some h₂, deliveries_of_none h₃]

theorem deliveries_laterLogin :
    deliveries loginFilter [.empty] 2 [laterLoginLine] = ([laterLogin], [.empty]) := by
  have h₁ : getRecord loginFilter [.empty] 2 [laterLoginLine] =
      (some laterLogin, [.empty], 3, []) := by decide +kernel
  have h₂ : getRecord loginFilter [.empty] 3 [] = (none, [.empty], 3, []) := by decide +kernel
  rw [deliveries_of_some h₁, deliveries_of_none h₂]

/-- The second login is never printed, although the lines are in order: the second search waits for an
event that it does not look at. -/
theorem later_login_not_printed : TimeOrdered loginFilter [loginLine, authLine, laterLoginLine] ∧
    ¬ ExactlyOnce loginFilter .logs 2049 77 [loginLine, authLine] [laterLoginLine] := by
  refine ⟨?_, fun h => ?_⟩
  · have h₁ : extractTimestamp loginFilter loginLine = some (login.1, 1112) := by decide +kernel
    have h₂ : extractTimestamp loginFilter authLine = some (auth.1, 1100) := by decide +kernel
    have h₃ : extractTimestamp loginFilter laterLoginLine = some (laterLogin.1, 1112) := by
      decide +kernel
    refine List.Pairwise.cons ?_ (List.Pairwise.cons ?_ (pairwise_singleton _ _))
    · intro line hline e type he
      obtain ⟨⟩ := h₁.symm.trans he
      rcases mem_cons.mp hline with rfl | hline
      · exact notBefore_of_eq h₂ (by decide)
      · rw [mem_singleton.mp hline]
        exact notBefore_of_eq h₃ (by decide)
    · intro line hline e type he
      obtain ⟨⟩ := h₂.symm.trans he
      rw [mem_singleton.mp hline]
      exact notBefore_of_eq h₃ (by decide)
  · have hold : oldEvents loginFilter [loginLine, authLine] = [login, auth] := by
      rw [oldEvents, deliveries_login_auth]
    have hnew : newEvents loginFilter [loginLine, authLine] [laterLoginLine] = [laterLogin] := by
      rw [newEvents, deliveries_login_auth]
      exact congrArg Prod.fst deliveries_laterLogin
    have hload : loadChkPt (saveChkPt 2049 77 (lastOf zero [login, auth])) =
        some ⟨2049, 77, toEvent auth⟩ := loadChkPt_saveChkPt ⟨by decide, nofun⟩ (by decide) (by decide)
    have hr : resume (some (toEvent auth)) (([login, auth] ++ [laterLogin]).filter
        loginFilter.accepts) = some [] := by decide +kernel
    rw [← hold, ← hnew] at hr
    rw [← hold] at hload
    have hsecond := (secondSearch_of_some loginFilter .logs 2049 77 [loginLine, authLine]
      [laterLoginLine] hload (by decide) hr).1
    have hlen := h.printed.length_eq
    rw [hsecond, firstSearch_eq, filter_completeEvents, hold, hnew] at hlen
    have hone : ([login, auth].filter loginFilter.accepts).length = 1 := by decide +kernel
    have hnext : ([laterLogin].filter loginFilter.accepts).length = 1 := by decide +kernel
    simp only [length_append, hone, hnext, getD_some, length_nil] at hlen
    omega

end LastNotAccepted

end LibAudit.Search
