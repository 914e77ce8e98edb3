import LibAudit.Spool.Failure
import LibAudit.Spool.Resize

/-!
# A process that dies after some operations

`q_append` and `q_drop_head` are called again and again, until one of them fails or the process dies in
it.  No call that has succeeded is undone (`changes_yield`).
-/

namespace LibAudit.Spool

open Hoare List

variable {path : String} {n es fd : Nat} {held : List CString} {st : St}

/-- The operation on the file. -/
def Change.op : Change → FileOp
  | .append data => .append data
  | .dropHead => .dropHead

/-- The calls, one after the other, up to one that fails. -/
def changes : List Change → QM Unit
  | [] => pure ()
  | c :: cs => do
    c.perform
    changes cs

/-- The state is always written as a whole. -/
def Atomic : List Change → St → Prop
  | [], _ => True
  | c :: cs, st => c.op.StateAtomic st ∧ ∀ st', c.perform st = .ok () st' → Atomic cs st'

theorem syncFhState_ok {head len : Nat} (hsz : Sizes n es) (h : InvAt path n es head len st held)
    (hfd : st.q.fd = some fd) :
    Triple (· = st) syncFhState (fun _ st' => st'.q.fd = some fd ∧ Inv path n es st' held)
      (fun _ _ => True) := by
  refine (St.Later.start (syncFhState_spec (g := False) False.elim hfd)).weaken ?_ fun _ _ _ => trivial
  rintro _ ⟨s', q'⟩ ⟨hl, hq⟩
  obtain rfl : q' = st.q := hq
  exact ⟨hfd, (h.synced hsz hfd).later hl⟩

/-- A call that succeeds does what it is for. -/
theorem Change.ok (hsz : Sizes n es) (h : Inv path n es st held) (hfd : st.q.fd = some fd) (c : Change) :
    Triple (· = st) c.perform
      (fun _ st' => st'.q.fd = some fd ∧ Inv path n es st' (c.op.result n es held))
      (fun _ _ => True) := by
  cases c with
  | append data =>
    by_cases hfull : held.length = n
    · rintro st rfl
      rw [Change.perform, qAppend_full h hfull]
      trivial
    by_cases hlong : es < data.strlen + 1
    · rintro st rfl
      rw [Change.perform, qAppend_tooLong h hfull hlong]
      trivial
    have hres : (FileOp.append data).result n es held = held ++ [data] := by
      simp only [FileOp.result, Fifo.step, if_neg hfull, if_neg hlong]
    rw [Change.op, hres]
    refine .bind ((qAppendNoSync_spec (g := False) False.elim hsz h (lt_of_le_of_ne h.length_le hfull)
      (not_lt.1 hlong) rfl).err fun _ _ _ => trivial) fun _ => ?_
    rintro st₁ ⟨hinv, hq, -⟩
    exact syncFhState_ok hsz hinv (by rw [hq]; exact hfd) st₁ rfl
  | dropHead =>
    cases held with
    | nil =>
      rintro st rfl
      rw [Change.perform, qDropHead_empty h]
      trivial
    | cons data held =>
      refine .bind ((InvAt.qDropHeadMemoryOnly h).err fun _ _ => False.elim) fun _ => ?_
      rintro _ rfl
      exact syncFhState_ok hsz (InvAt.dropHead h) hfd _ rfl

/-- How many of the calls return without an error. -/
def completed : List Change → St → Nat
  | [], _ => 0
  | c :: cs, st =>
    match c.perform st with
    | .ok _ st' => completed cs st' + 1
    | .error _ _ => 0

/-- What the queue holds after these calls. -/
def heldAfter (n es : Nat) (held : List CString) (cs : List Change) : List CString :=
  cs.foldl (fun held c => c.op.result n es held) held

/-- **The process may die at any time.**  When the file is opened again, it gives what it held after the
last call that succeeded, or what the one that did not was for. -/
theorem changes_yield (hargs : argsOk fileFlags n es = true) (hn : n + 1 < 2 ^ 32)
    (h : Inv path n es st held) (hfd : st.q.fd = some fd) (cs : List Change) (hat : Atomic cs st) :
    ∃ k, (k = completed cs st ∨ k = completed cs st + 1) ∧
      Yields path n es (ended (changes cs st)).2 (heldAfter n es held (cs.take k)) := by
  have hsz := sizes_of_argsOk hargs
  induction cs generalizing st held with
  | nil => exact ⟨0, .inl rfl, (h.fileHolds hfd).yields hargs hn⟩
  | cons c cs ih =>
    obtain ⟨hc, hcs⟩ := hat
    have hop : c.op.Writes := by cases c <;> trivial
    have hend : c.op.perform path es st = ended (c.perform st) := by cases c <;> rfl
    obtain ⟨-, head, hfile⟩ := hop.perform hsz h hfd hc
    rw [hend] at hfile
    have hok := Change.ok hsz h hfd c st rfl
    cases hcall : c.perform st with
    | ok a st' =>
      rw [hcall] at hok
      obtain ⟨k, hk, hyields⟩ := ih hok.2 hok.1 (hcs st' hcall)
      rw [completed, hcall, changes, bind_ok hcall]
      exact ⟨k + 1, hk.imp (congrArg (· + 1)) (congrArg (· + 1)), hyields⟩
    | error e st' =>
      rw [hcall] at hfile
      rw [completed, hcall, changes, bind_error hcall]
      rcases hfile with hfile | hfile
      · exact ⟨0, .inl rfl, hfile.yields hargs hn⟩
      · exact ⟨1, .inr rfl, hfile.yields hargs hn⟩

/-- The fifth call of the process is its last one. -/
def dying (t : Nat) : Outcome := if t = 4 then .killed else .done (2 ^ 63)

theorem done_of_dying {t k : Nat} (h : dying t = .done k) : k = 0 ∨ 8 ≤ k := by
  unfold dying at h
  split at h
  · cases h
  · cases h
    decide

/-- A queue with one string, in such a process. -/
def dyingQueue : St := { lastSlotQueue with sys := lastSlotSys.withCalls dying }

theorem dyingQueue_inv : Inv "spool" 4 32 dyingQueue [lastString] :=
  InvAt.congr_sys lastSlotQueue_inv rfl fun _ _ => rfl

/-- A string is appended, one is dropped, and another one is appended. -/
def threeChanges : List Change := [.append lastString, .dropHead, .append lastString]

theorem threeChanges_atomic : Atomic threeChanges dyingQueue := by
  refine ⟨FileOp.Writes.stateAtomic trivial fun _ _ => done_of_dying, fun _ h => ?_⟩
  cases h
  refine ⟨FileOp.Writes.stateAtomic trivial fun _ _ => done_of_dying, fun _ h => ?_⟩
  cases h
  exact ⟨FileOp.Writes.stateAtomic trivial fun _ _ => done_of_dying, fun _ _ => trivial⟩

/-- The process dies in the third call, before the state is written. -/
theorem changes_yield_dying : completed threeChanges dyingQueue = 2 ∧
    ∃ k, (k = completed threeChanges dyingQueue ∨ k = completed threeChanges dyingQueue + 1) ∧
      Yields "spool" 4 32 (ended (changes threeChanges dyingQueue)).2
        (heldAfter 4 32 [lastString] (threeChanges.take k)) :=
  ⟨by decide +kernel, changes_yield (by decide) (by decide) dyingQueue_inv rfl _ threeChanges_atomic⟩

end LibAudit.Spool
