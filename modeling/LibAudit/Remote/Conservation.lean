import LibAudit.Remote.Removal
import LibAudit.Spool.Resize

/-!
# Every event is accounted for

`audisp-remote` appends the lines it reads to the queue, and drops the event at the head when it is
settled.  In every run, what was dropped and what is still in the queue are together what the queue had
at the start and the lines that were taken in (`accounts_run`): nothing is lost, comes twice or overtakes
something else, whatever the network does.  The calls that the queue makes succeed, but it may be full.
-/

namespace LibAudit.Remote
open Spool Wire List

variable {path : String} {n es : Nat} {r r' : State} {all : List Bytes}

/-- The events that were dropped. -/
def State.removed (r : State) : List Bytes := r.history.filterMap fun
  | .removed event => some event
  | _ => none

/-- The queue works, and `all` are the events that were dropped and those that are in the queue. -/
def Accounts (path : String) (n es : Nat) (r : State) (all : List Bytes) : Prop :=
  ∃ held, r.queue.sys.Succeeds ∧ Inv path n es r.queue held ∧ all = r.removed ++ held.map (·.bytes)

/-! ## The network does not matter -/

/-- What the network has nothing to do with. -/
def State.stock (r : State) : St × List Bytes := (r.queue, r.removed)

theorem Accounts.congr (h : Accounts path n es r all) (hr : r'.stock = r.stock) :
    Accounts path n es r' all := by
  obtain ⟨hqueue, hremoved⟩ := Prod.mk.inj hr
  rwa [Accounts, hqueue, hremoved]

@[grind =] theorem stock_doAction (action : FailureAction) (r : State) :
    (doAction action r).2.stock = r.stock := by
  unfold doAction
  split <;> first | rfl | (split <;> rfl)

@[grind =] theorem stock_next (r : State) : r.next.stock = r.stock := rfl

@[grind =] theorem stock_stopTransport (r : State) : (stopTransport r).stock = r.stock := rfl

@[grind =] theorem stock_sent (seq : Nat) (s : Option Bytes) (r : State) :
    (r.note (.sent seq s)).stock = r.stock := by
  simp [State.stock, State.removed, State.note]

@[grind =] theorem stock_reply (header : Header) (r : State) :
    (r.note (.reply header)).stock = r.stock := by
  simp [State.stock, State.removed, State.note]

@[grind =] theorem stock_initTransport (r : State) : (initTransport r).2.stock = r.stock := by
  unfold initTransport
  split
  · rfl
  · split <;> rfl

@[grind =] theorem stock_arWrite (len : Nat) (r : State) : (arWrite len r).2.stock = r.stock := by
  grind [arWrite]

@[grind =] theorem stock_arRead (len : Nat) (r : State) : (arRead len r).2.2.stock = r.stock := by
  unfold arRead
  split <;> first | rfl | (split <;> rfl)

@[grind →] theorem stock_sendMsgTcp {mlen : Nat} {ok : Bool} (h : sendMsgTcp mlen r = (ok, r')) :
    r'.stock = r.stock := by
  grind [sendMsgTcp]

@[grind →] theorem stock_recvMsgTcp {header : Option Bytes} (h : recvMsgTcp r = (header, r')) :
    r'.stock = r.stock := by
  grind [recvMsgTcp]

@[grind =] theorem stock_remoteServerEndingHandler (r : State) :
    (remoteServerEndingHandler r).2.stock = r.stock := stock_doAction _ _

@[grind =] theorem stock_handleReply (type : Nat) (r : State) :
    (handleReply type r).2.stock = r.stock := by
  unfold handleReply
  repeat' split
  all_goals first | exact stock_doAction _ _ | rfl

theorem stock_tryAgain (s : Option Bytes) (left : Nat) (start : Int) (r : State) :
    (tryAgain s left start r).2.stock = r.stock := by
  induction left generalizing start r with
  | zero => exact stock_doAction _ _
  | succ left ih => grind [tryAgain, networkFailureHandler]

theorem stock_relayEvent (s : Option Bytes) (r : State) : (relayEvent s r).2.stock = r.stock :=
  stock_tryAgain s _ 0 _

theorem stock_checkMessageManaged (r : State) : (checkMessageManaged r).stock = r.stock := by
  grind [checkMessageManaged, remoteDiskLowHandler, remoteDiskFullHandler, remoteDiskErrorHandler]

theorem stock_reconnect (r : State) : (reconnect r).stock = r.stock := by
  unfold reconnect
  have := stock_initTransport r
  grind [startupFailureHandler, State.stock, State.removed]

/-! ## Actions -/

theorem Accounts.sendOne (h : Accounts path n es r all) (hsz : Sizes n es) :
    Accounts path n es (sendOne r) all := by
  rw [Remote.sendOne]
  split
  · exact h
  obtain ⟨held, hs, hinv, rfl⟩ := h
  cases held with
  | nil =>
    rw [qPeek_empty hinv]
    exact ⟨[], hs, hinv, rfl⟩
  | cons event held =>
    obtain ⟨queue, hpeek, hs, -, hinv⟩ := qPeek_cons hs hinv maxAuditMessageLength
    have h : Accounts path n es { r with queue } (r.removed ++ (event :: held).map (·.bytes)) :=
      ⟨_, hs, hinv, rfl⟩
    rw [hpeek, qPeekCopy, CString.length_withNul]
    by_cases hlong : maxAuditMessageLength < event.strlen + 1
    · rw [if_pos hlong]
      exact h.congr (stock_doAction _ _)
    have hret : 0 < toInt (event.strlen + 1) := by
      have hmax : maxAuditMessageLength = 8970 := rfl
      rw [toInt_eq _ (by omega), if_pos (by omega)]
      omega
    rw [if_neg hlong]
    generalize toInt (event.strlen + 1) = ret at hret ⊢
    show Accounts path n es (if ret = 0 then _ else if ret < 0 then _ else _) _
    rw [if_neg hret.ne', if_neg hret.not_gt, show event.withNul.dropLast = _ from dropLast_concat]
    dsimp only
    have hrelay := stock_relayEvent (some event.bytes) { r with queue }
    generalize relayEvent (some event.bytes) { r with queue } = res at hrelay ⊢
    split
    · exact h.congr hrelay
    · obtain ⟨hqueue, hremoved⟩ := Prod.mk.inj hrelay
      obtain ⟨queue', hdrop, hs', -, hinv'⟩ := qDropHead_ok hsz hs hinv
      rw [hqueue, hdrop]
      refine ⟨held, hs', hinv', ?_⟩
      rw [show r.removed = res.2.removed from hremoved.symm]
      simp [State.removed, State.note]

/-- The line that an action adds to the queue: one that is to be kept, if there is room for it. -/
def taken (r : State) : Action → List Bytes
  | .input event =>
    if r.dead = false ∧ keepLine event.bytes ∧ r.queue.q.queueLength ≠ r.queue.q.numEntries ∧
      event.strlen < r.queue.q.entrySize then [event.bytes] else []
  | _ => []

theorem Accounts.input (h : Accounts path n es r all) (hsz : Sizes n es) (hdead : r.dead = false)
    (event : CString) : Accounts path n es (input event r) (all ++ taken r (.input event)) := by
  have hstock := stock_reconnect r
  have hr := h.congr hstock
  obtain ⟨hqueue, -⟩ := Prod.mk.inj hstock
  rw [Remote.input, enqueue, taken, hdead, ← hqueue]
  generalize reconnect r = r at hr
  obtain ⟨held, hs, hinv, rfl⟩ := hr
  rw [hinv.length, hinv.numEntries, hinv.entrySize]
  by_cases hkeep : keepLine event.bytes
  · rw [if_pos hkeep]
    by_cases hfull : held.length = n
    · rw [qAppend_full hinv hfull, if_neg (by tauto), append_nil]
      dsimp only [doOverflowAction]
      split <;> exact ⟨held, hs, hinv, rfl⟩
    by_cases hlong : es < event.strlen + 1
    · rw [qAppend_tooLong hinv hfull hlong, if_neg (by omega), append_nil]
      exact Accounts.congr ⟨held, hs, hinv, rfl⟩ (stock_doAction _ r)
    · obtain ⟨queue, hok, hs, -, hinv⟩ := qAppend_ok hsz hs hinv hfull hlong
      rw [hok, if_pos ⟨rfl, hkeep, hfull, by omega⟩]
      exact ⟨_, hs, hinv, by simp [State.removed]⟩
  · rw [if_neg hkeep, if_neg (by tauto), append_nil]
    exact ⟨held, hs, hinv, rfl⟩

theorem Accounts.perform (h : Accounts path n es r all) (hsz : Sizes n es) (action : Action) :
    Accounts path n es (perform action r) (all ++ taken r action) := by
  rw [Remote.perform]
  cases hdead : r.dead with
  | true =>
    have htaken : taken r action = [] := by cases action <;> simp [taken, hdead]
    rwa [htaken, append_nil]
  | false =>
    cases action with
    | input event => exact h.input hsz hdead event
    | sendOne => exact (append_nil all).symm ▸ h.sendOne hsz
    | sendHeartbeat => exact (append_nil all).symm ▸ h.congr (stock_relayEvent none r)
    | checkMessage => exact (append_nil all).symm ▸ h.congr (stock_checkMessageManaged r)
    | hup | term | user2 => exact (append_nil all).symm ▸ h

/-! ## Runs -/

/-- The lines that these actions add to the queue. -/
def takenBy : State → List Action → List Bytes
  | _, [] => []
  | r, action :: actions => taken r action ++ takenBy (perform action r) actions

/-- **Every event is accounted for.**  In every run the events that were dropped, followed by those in
the queue, are the ones there were at the start, followed by the lines that were taken in. -/
theorem accounts_run (hsz : Sizes n es) (h : Accounts path n es r all) (actions : List Action) :
    Accounts path n es (actions.foldl (fun r action => perform action r) r)
      (all ++ takenBy r actions) := by
  induction actions generalizing r all with
  | nil => exact (append_nil all).symm ▸ h
  | cons action actions ih =>
    rw [takenBy, ← append_assoc]
    exact ih (h.perform hsz action)

/-- An event in a queue file, which the server acknowledges. -/
theorem accounts_run_acked : Accounts "spool" 4 32
    (perform .sendOne { State.ignoring rmwTypeAck with queue := lastSlotQueue }) [[97]] := by
  have hstart : Accounts "spool" 4 32 { State.ignoring rmwTypeAck with queue := lastSlotQueue } [[97]] :=
    ⟨[lastString], fun _ _ => ⟨2 ^ 63, by decide, rfl⟩, lastSlotQueue_inv, rfl⟩
  simpa only [foldl_cons, foldl_nil, takenBy, taken, append_nil] using
    accounts_run ⟨by decide, by decide, by decide, by decide⟩ hstart [.sendOne]

end LibAudit.Remote
