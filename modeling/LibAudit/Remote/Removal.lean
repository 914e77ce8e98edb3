import LibAudit.Remote.Relay

/-!
# When an event leaves the queue

The only call of `q_drop_head` is the last line of `send_one`, so an event leaves the queue only
when `relay_event` did not fail, and that depends on the reply and on the configuration: some
actions (`FailureAction.Continues`) let sending go on, and the event counts as sent.  `Settles`
says which replies are good enough for which configuration.

`removals_settled` is the safety property of whole runs: whatever the network, the server, the
queue and the signals do, right before an event is taken off the queue it has been sent with a
sequence number of its own and answered by a reply that settles it.  The number is its own because
`relay_event` counts `sequence_id` up before the first try (`OwnNumber`).
-/

namespace LibAudit.Remote

open Wire Spool List

/-! ## Which replies settle an event -/

/-- The actions that can let sending go on. -/
def FailureAction.Continues : FailureAction → Prop
  | .ignore | .syslog | .exec | .warnOnceCont => True
  | _ => False

/-- The action the configuration has for a type of reply, if any is taken. -/
def Config.actionFor (config : Config) (type : Nat) : Option FailureAction :=
  if type = rmwTypeEnding then some config.remoteEndingAction
  else if type = rmwTypeDisklow then some config.diskLowAction
  else if type = rmwTypeDiskfull then some config.diskFullAction
  else if type = rmwTypeDiskerror then some config.diskErrorAction
  else if type &&& rmwTypeFatalmask ≠ 0 then some config.genericErrorAction
  else if type &&& rmwTypeWarnmask ≠ 0 then some config.genericWarningAction
  else none

/-- The reply ends the business with the event that was sent as number `seq`: it carries that
number, or the server is going down, and the action for it, if there is one, goes on. -/
def Settles (config : Config) (seq : Nat) (header : Header) : Prop :=
  (header.seq = seq % 2 ^ 32 ∨ header.type = rmwTypeEnding) ∧
    ∀ action, config.actionFor header.type = some action → action.Continues

/-- Only tries of this event have its number: what was sent before has smaller ones, and what is sent
later has larger ones. -/
structure OwnNumber (seq : Nat) (event : Bytes) (before later : List Entry) : Prop where
  before : ∀ n s, .sent n s ∈ before → n < seq ∨ n = seq ∧ s = some event
  later : ∀ n s, .sent n s ∈ later → seq < n

/-- Each event that was taken off the queue had just been sent, with a number of its own, and
answered. -/
def RemovalsSettled (config : Config) (history : List Entry) : Prop :=
  ∀ pre event post, history = pre ++ .removed event :: post →
    ∃ pre' seq header, pre = pre' ++ [.sent seq (some event), .reply header] ∧
      Settles config seq header ∧ OwnNumber seq event pre' post

/-! ## What a step adds to the history -/

/-- `s` is sent as number `seq`, maybe several times, and there are replies. -/
def Tries (seq : Nat) (s : Option Bytes) (seg : List Entry) : Prop :=
  ∀ e ∈ seg, e = .sent seq s ∨ ∃ header, e = .reply header

/-- From `r` to `r'` the history has grown by `seg`. -/
structure Grows (r r' : State) (seg : List Entry) : Prop where
  config : r'.config = r.config
  sequenceId : r'.sequenceId = r.sequenceId
  history : r'.history = r.history ++ seg

variable {r r' : State} {cfg : Config} {seg : List Entry} {s : Option Bytes}

theorem Grows.refl (hconfig : r'.config = r.config)
    (hseq : r'.sequenceId = r.sequenceId) (hhistory : r'.history = r.history) : Grows r r' [] :=
  ⟨hconfig, hseq, by rw [hhistory, append_nil]⟩

theorem Grows.trans {r'' : State} {seg' : List Entry} (h : Grows r r' seg)
    (h' : Grows r' r'' seg') : Grows r r'' (seg ++ seg') where
  config := h'.config.trans h.config
  sequenceId := h'.sequenceId.trans h.sequenceId
  history := by rw [h'.history, h.history, append_assoc]

/-- What an attempt to send `s` as number `r.sequenceId` comes to. -/
def Attempt (s : Option Bytes) (r : State) (res : Int × State) : Prop :=
  ∃ seg, Grows r res.2 seg ∧ Tries r.sequenceId s seg ∧ (0 ≤ res.1 → ∃ seg' header,
    seg = seg' ++ [.sent r.sequenceId s, .reply header] ∧ Settles r.config r.sequenceId header)

theorem RemovalsSettled.append {config : Config} {history : List Entry} {seq : Nat}
    (h : RemovalsSettled config history) (hless : ∀ n s, .sent n s ∈ history → n < seq)
    (htries : Tries seq s seg) : RemovalsSettled config (history ++ seg) := by
  have hseg (event : Bytes) : Entry.removed event ∉ seg := fun hmem => by
    rcases htries _ hmem with heq | ⟨_, heq⟩ <;> cases heq
  intro pre event post heq
  rcases append_eq_append_iff.mp heq with ⟨mid, hpre, hmid⟩ | ⟨mid, hhist, hmid⟩
  · exact absurd (hmid ▸ by simp) (hseg event)
  · cases mid with
    | nil =>
      rw [nil_append] at hmid
      exact absurd (hmid ▸ by simp) (hseg event)
    | cons x mid =>
      obtain ⟨rfl, rfl⟩ := cons_eq_cons.mp hmid
      obtain ⟨pre', n, header, rfl, hsettles, hown⟩ := h pre event mid hhist
      have hn : n < seq := hless n (some event) (hhist ▸ by simp)
      refine ⟨pre', n, header, rfl, hsettles, hown.before, fun n' s' hmem => ?_⟩
      rcases mem_append.mp hmem with hmem | hmem
      · exact hown.later n' s' hmem
      · rcases htries _ hmem with heq | ⟨_, heq⟩ <;> cases heq
        exact hn

theorem RemovalsSettled.removed {config : Config} {pre : List Entry} {seq : Nat} {event : Bytes}
    {header : Header}
    (h : RemovalsSettled config (pre ++ [.sent seq (some event), .reply header]))
    (hsettles : Settles config seq header) (hown : OwnNumber seq event pre []) :
    RemovalsSettled config ((pre ++ [.sent seq (some event), .reply header]) ++
      [.removed event]) := by
  intro pre' event' post heq
  rcases eq_nil_or_concat post with rfl | ⟨init, last, rfl⟩
  · obtain ⟨hpre, hevent⟩ := append_inj' heq rfl
    grind
  · rw [concat_eq_append, ← cons_append, ← append_assoc] at heq
    obtain ⟨hpre, hlast⟩ := append_inj' heq rfl
    obtain ⟨pre'', n, header', hpre', hsettles', hown'⟩ := h pre' event' init hpre
    refine ⟨pre'', n, header', hpre', hsettles', hown'.before, fun n' s' hmem => ?_⟩
    rw [concat_eq_append, ← hlast] at hmem
    exact hown'.later n' s' (by simpa using hmem)

/-- The state of a run: nothing unsettled has left the queue, and no number has been used that is yet
to come. -/
structure Settled (cfg : Config) (r : State) : Prop where
  config : r.config = cfg
  removals : RemovalsSettled cfg r.history
  numbers : ∀ n s, .sent n s ∈ r.history → n ≤ r.sequenceId

theorem Settled.queue (h : Settled cfg r) (queue : St) :
    Settled cfg { r with queue := queue } := { h with }

/-- Some event in the queue, a server whose answer to it is of type `type`, and a configuration that
does nothing about a full disk. -/
def State.ignoring (type : Nat) : State where
  config := ⟨3, 5, .stop, .ignore, .ignore, .warnOnce, .reconnect, .syslog, .syslog, .stop,
    .warnOnceCont, .syslog⟩
  net := ⟨fun _ => .success, fun n => .wrote (n + 16),
    fun _ => .full fun i => (packHeader 0 type 0 2).getD i 0, fun n => n⟩
  tick := 1
  queue := ⟨⟨fun _ => File.empty, fun _ => none, 0, fun _ => .done 1, 0⟩,
    { flags := ⟨true, false, false, false, false, false⟩
      fd := none
      memory := some ⟨1, fun _ => some [97, 0]⟩
      numEntries := 1
      entrySize := 12288
      queueHead := 0
      queueLength := 1 }⟩
  suspend := false
  stop := false
  transportOk := true
  sock := true
  remoteEnded := false
  connectedOnce := true
  warned := 0
  sequenceId := 1
  history := []
  dead := false

end LibAudit.Remote
