import LibAudit.Auditd.EnrichIntegrity
import LibAudit.Auditd.Reply

/-!
# One line for each event

The log is read line by line, so an event should be one line.  `write_to_log` ends it with a newline;
that there is no other newline is left to whoever made the text.  Three do:

* `format_raw` replaces the newlines of a local record by blanks;
* `format_enrich` appends interpretations to that.  A user or a group is encoded if it has an unusual
  character, but a socket address is written as it is, with the path of a local socket in it;
* `client_message` only removes a newline at the end of what came over the network.

So raw records are one line whatever is in them, and for the others `Clean` says when they are.
-/

namespace LibAudit.Auditd

open Hoare Auparse Logging List

/-! ## Where events come from -/

/-- `logging_formats`. -/
inductive LogFormat
  | raw | nolog | enriched
  deriving DecidableEq, Repr

/-- What the text of a local record depends on. -/
structure Formatting where
  env : Env
  logFormat : LogFormat
  node : Option CString

/-- An event: a call of `client_message`, a local record, or a request to reconfigure. -/
inductive Arrival
  | network (c : Call)
  | record (rep : LocalRecord)
  | reconfigure (n : DaemonConf) (rep : LocalRecord)

/-- A record that has not been formatted, as `%s` prints it. -/
def LocalRecord.unformatted (rep : LocalRecord) : Bytes :=
  match rep.message with
  | none => ascii "(null)"
  | some message => untilNul message

/-- `replace_event_msg` for a text without a NUL: what is too long is cut off. -/
def keepText (buf : Bytes) : Bytes := buf.take (Wire.maxAuditMessageLength - 1)

/-- `format_event`: the text of the event, unless the daemon crashes. -/
def formatEvent (F : Formatting) (rep : LocalRecord) : Option Bytes :=
  match F.logFormat with
  | .nolog => some rep.unformatted
  | .raw => some (keepText (formatRaw F.node rep))
  | .enriched => (formatEnrich F.env (formatRaw F.node rep)).map fun b =>
      keepText (b.line (formatRaw F.node rep))

/-- `distribute_event`.  A record of type 0 is taken for one from the network. -/
def distribute (F : Formatting) : Arrival → LogM Unit
  | .network c => receive c
  | .record rep =>
    if rep.type = 0 then do
      let d ← get
      handle (.event ⟨networkType d.config rep.unformatted, rep.unformatted, none⟩)
    else
      match formatEvent F rep with
      | none => pure ()
      | some message => handle (.event ⟨rep.type, message, none⟩)
  | .reconfigure n rep =>
    match formatEvent F rep with
    | none => pure ()
    | some message => handle (.reconfigure n message)

/-- The bytes that have been written to the log between two states. -/
def growth (d d' : Daemon) : Bytes :=
  (d'.written.drop d.written.length).flatMap fun message => message ++ [10]

/-- One newline, at the end. -/
def OneLine (bytes : Bytes) : Prop := bytes.count 10 = 1 ∧ bytes.getLast? = some 10

/-! ## When an event is one line -/

/-- The interpretations that are appended as they are have no newline, as far as they are among the
bytes that are kept. -/
def PlainEntries (raw : Bytes) (b : Buffer) : Prop :=
  ∀ e ∈ b.entries, e.kind.isId = false → ∀ front rest, b.line raw = front ++ e.interp.bytes ++ rest →
    10 ∉ e.interp.bytes.take (Wire.maxAuditMessageLength - 1 - front.length)

/-- The text of a local record has no newline. -/
def CleanRecord (F : Formatting) (rep : LocalRecord) : Prop :=
  match F.logFormat with
  | .nolog => 10 ∉ rep.unformatted
  | .raw => True
  | .enriched => ∀ b, formatEnrich F.env (formatRaw F.node rep) = some b →
      PlainEntries (formatRaw F.node rep) b

/-- The text of the event has no newline. -/
def Clean (F : Formatting) : Arrival → Prop
  | .network c => 10 ∉ c.text
  | .record rep => if rep.type = 0 then 10 ∉ rep.unformatted else CleanRecord F rep
  | .reconfigure _ rep => CleanRecord F rep

/-! ## Formatted records -/

/-- Newlines are blanks afterwards. -/
theorem newline_notMem_formatRaw (node : Option CString) (rep : LocalRecord) :
    10 ∉ formatRaw node rep := by
  have hmap (bs : Bytes) : 10 ∉ bs.map fun b => if b = 10 then 32 else b := by grind
  have hbuf (c : Prop) [Decidable c] (bs : Bytes) :
      10 ∉ if c then (bs.map fun b => if b = 10 then 32 else b).dropLast
        else bs.map fun b => if b = 10 then 32 else b := by
    split
    · exact fun hmem => hmap bs (mem_of_mem_dropLast hmem)
    · exact hmap bs
  exact hbuf _ _

/-- What is before the `m` in the middle has no newline. -/
theorem newline_mem_take_append {front m rest : Bytes} {n : Nat} (hfront : 10 ∉ front)
    (hm : 10 ∈ m) (h : 10 ∈ ((front ++ m) ++ rest).take n) :
    10 ∈ m.take (n - front.length) := by
  rw [take_append, take_append, mem_append, mem_append] at h
  rcases h with (h | h) | h
  · exact absurd (mem_of_mem_take h) hfront
  · exact h
  · have hpos : 0 < n - (front ++ m).length := by
      by_contra hzero
      simp_all
    rw [length_append] at hpos
    rwa [take_of_length_le (by omega)]

/-- Entries with something before each. -/
def entriesText (sign : CharSign) (ps : List (Bytes × Entry)) : Bytes :=
  ps.flatMap fun p => p.1 ++ p.2.text sign

variable {sign : CharSign}

/-- **A newline comes from an interpretation that is not encoded.**  `front` is what is before the
entries. -/
theorem plain_of_newline_mem {ps : List (Bytes × Entry)}
    (hps : ∀ p ∈ ps, 10 ∉ p.1 ∧ Upper p.2.name) {front : Bytes}
    (hfront : 10 ∉ front) {n : Nat}
    (h : 10 ∈ (front ++ entriesText sign ps).take n) :
    ∃ p ∈ ps, p.2.kind.isId = false ∧ ∃ a c,
      front ++ entriesText sign ps = a ++ p.2.interp.bytes ++ c ∧
        10 ∈ p.2.interp.bytes.take (n - a.length) := by
  induction ps generalizing front with
  | nil =>
    rw [entriesText, flatMap_nil, append_nil] at h
    exact absurd (mem_of_mem_take h) hfront
  | cons p ps ih =>
    obtain ⟨hgap, hupper⟩ := hps p mem_cons_self
    have hname : 10 ∉ p.2.upperName := by
      rw [Entry.upperName_eq hupper]
      exact hupper.noNewline
    -- up to the value of the first entry there is no newline
    let front' := front ++ (p.1 ++ (p.2.upperName ++ [61]))
    have hfront' : 10 ∉ front' := by simp [front', hfront, hgap, hname]
    have hsplit : front ++ entriesText sign (p :: ps) =
        (front' ++ p.2.value sign) ++ entriesText sign ps := by
      simp [front', entriesText, Entry.text_eq]
    rw [hsplit] at h ⊢
    by_cases hvalue : 10 ∈ p.2.value sign
    · have hid : p.2.kind.isId = false := by
        by_contra hid
        exact Entry.notMem_of_isId sign (Bool.eq_true_of_not_eq_false hid) (by decide) hvalue
      have hinterp : p.2.value sign = p.2.interp.bytes := by rw [Entry.value, if_neg (by simp [hid])]
      rw [hinterp] at h hvalue ⊢
      exact ⟨p, mem_cons_self, hid, front', _, rfl, newline_mem_take_append hfront' hvalue h⟩
    · have hnone : 10 ∉ front' ++ p.2.value sign := by simp [hfront', hvalue]
      obtain ⟨p', hp', hid, hplace⟩ := ih (fun p' hp' => hps p' (mem_cons_of_mem p hp')) hnone h
      exact ⟨p', mem_cons_of_mem p hp', hid, hplace⟩

/-- What `format_enrich` has appended, as entries with something before each. -/
theorem Filled.exists_entriesText {b : Buffer} (h : Filled sign b) :
    ∃ front ps, b.out = front ++ entriesText sign ps ∧ 10 ∉ front ∧
      ps.map Prod.snd = b.entries ∧ ∀ p ∈ ps, 10 ∉ p.1 := by
  have hspaced (es : List Entry) : (es.map (·.text sign)).flatMap (32 :: ·) =
      entriesText sign (es.map fun e => ([32], e)) := by
    rw [entriesText, flatMap_map, flatMap_map]
    rfl
  cases h with
  | empty _ hentries hout => exact ⟨[], [], by simp [hout, entriesText], by simp, by simp [hentries], by simp⟩
  | spaced _ hout =>
    refine ⟨[interpSeparator], b.entries.map fun e => ([32], e), ?_, by decide, ?_, ?_⟩
    · rw [hout, hspaced]
      rfl
    · simp [Function.comp_def]
    · simp
  | joined _ hout =>
    cases hes : b.entries with
    | nil =>
      exact ⟨[interpSeparator], [], by simp [hout, hes, entriesText, Auditd.joined], by decide, rfl, by simp⟩
    | cons e es =>
      refine ⟨[interpSeparator], ([], e) :: es.map fun e => ([32], e), ?_, by decide, ?_, ?_⟩
      · rw [hout, hes, map_cons, Auditd.joined, hspaced]
        rfl
      · simp [Function.comp_def]
      · simp

theorem newline_notMem_line_iff {raw : Bytes} {b : Buffer} {n : Nat}
    (hraw : 10 ∉ raw) (h : Enriched sign n b) :
    10 ∉ keepText (b.line raw) ↔ PlainEntries raw b := by
  constructor
  · intro hline e _ _ front rest hplace hmem
    refine hline ?_
    rw [keepText, hplace, take_append, take_append]
    exact mem_append_left _ (mem_append_right _ hmem)
  · intro hplain hmem
    obtain ⟨front, ps, hout, hfront, hentries, hgaps⟩ := h.filled.exists_entriesText
    have hline : b.line raw = (raw ++ front) ++ entriesText sign ps := by
      rw [Buffer.line, hout, append_assoc]
    have hps : ∀ p ∈ ps, 10 ∉ p.1 ∧ Upper p.2.name := fun p hp =>
      ⟨hgaps p hp, h.upper p.2 (hentries ▸ mem_map_of_mem hp)⟩
    rw [keepText, hline] at hmem
    obtain ⟨p, hp, hid, a, c, hplace, hnewline⟩ := plain_of_newline_mem hps (by simp [hraw, hfront]) hmem
    exact hplain p.2 (hentries ▸ mem_map_of_mem hp) hid a c (hline.trans hplace) hnewline

theorem newline_notMem_formatEvent_iff {F : Formatting} {rep : LocalRecord} {message : Bytes}
    (h : formatEvent F rep = some message) : 10 ∉ message ↔ CleanRecord F rep := by
  have hraw := newline_notMem_formatRaw F.node rep
  rw [formatEvent] at h
  rw [CleanRecord]
  cases hformat : F.logFormat with
  | nolog =>
    rw [hformat] at h
    cases h
    exact Iff.rfl
  | raw =>
    rw [hformat] at h
    cases h
    exact iff_of_true (fun hmem => hraw (mem_of_mem_take hmem)) trivial
  | enriched =>
    rw [hformat] at h
    obtain ⟨b, hb, rfl⟩ := Option.map_eq_some_iff.mp h
    rw [newline_notMem_line_iff hraw (formatEnrich_spec hb)]
    simp_all

/-! ## What is written -/

/-- What has been written so far. -/
def Written (w : List Bytes) (d : Daemon) : Prop := d.written = w

/-- Programs that send no reply and write no record. -/
theorem Silent.written {α : Type} {m : LogM α} (h : Silent m) (w : List Bytes) :
    Triple (Written w) m (fun _ => Written w) Any :=
  h.keeps fun _ _ hsame hw => hsame.written.trans hw

theorem sendAck_written (e : LogEvent) (type : Nat) (msg : String) (w : List Bytes) :
    Triple (Written w) (sendAck e type msg) (fun _ => Written w) Any := by
  rw [sendAck]
  split
  · exact .pure _ fun _ => id
  · exact .modify fun _ => id

theorem writeFailed_written (e : LogEvent) (errno : Spool.Errno) (w : List Bytes) :
    Triple (Written w) (writeFailed e errno) (fun _ => Written w) Any := by
  refine .ite (fun _ => ?_) fun _ => ?_
  · exact .bind (sendAck_written e _ _ w) fun _ => steps_diskFull.silent.written w
  · exact .bind (sendAck_written e _ _ w) fun _ => steps_doDiskErrorAction.silent.written w

theorem writeSucceeded_written (e : LogEvent) (rc : Nat) (w : List Bytes) :
    Triple (Written w) (writeSucceeded e rc) (fun _ => Written (w ++ [e.message])) Any := by
  have happend : Triple (Written w) (modify fun d => { d with written := d.written ++ [e.message] })
      (fun _ => Written (w ++ [e.message])) Any :=
    .modify fun d hd => congrArg (· ++ [e.message]) hd
  refine .bind happend fun _ => .bind ((steps_checkAfterWrite rc).silent.written _) fun _ => ?_
  refine .read fun d _ => .bind (sendAck_written e _ _ _) fun _ => ?_
  exact .modify fun _ => id

/-- Nothing is written, or the text of the event. -/
def Wrote (w : List Bytes) (text : Bytes) (d : Daemon) : Prop := Written w d ∨ Written (w ++ [text]) d

theorem logEvent_wrote (e : LogEvent) (w : List Bytes) :
    Triple (Written w) (logEvent e) (fun _ => Wrote w e.message) Any := by
  have hflush : Triple (Wrote w e.message) flushLog (fun _ => Wrote w e.message) Any := by
    refine steps_flushLog.silent.keeps fun d d' hsame hd => ?_
    rw [Wrote, Written, Written, hsame.written]
    exact hd
  refine .read fun d _ => .ite (fun _ => ?_) fun _ => .ite (fun _ => ?_) fun _ => ?_
  · refine .bind (.read fun d _ => .ite (fun _ => .throw _ fun _ _ => trivial)
      fun _ => .bind ((Steps.outcome _).silent.written w) fun rc => ?_) fun _ => hflush
    split
    · exact (writeFailed_written e _ w).post fun _ _ => .inl
    · exact (writeSucceeded_written e _ w).post fun _ _ => .inr
  · exact (sendAck_written e _ _ w).post fun _ _ => .inl
  · refine .ite (fun _ => ?_) fun _ => .pure _ fun _ => .inl
    exact (sendAck_written e _ _ w).post fun _ _ => .inl

theorem handle_event_wrote (e : LogEvent) (w : List Bytes) :
    Triple (Written w) (handle (.event e)) (fun _ => Wrote w e.message) Any := by
  refine .ite (fun _ => .pure _ fun _ => .inl) fun _ => ?_
  refine .ite (fun _ => ?_) fun _ => logEvent_wrote e w
  refine .bind (steps_rotateLogsNow.silent.written w) fun _ => .read fun d _ => ?_
  exact .ite (fun _ => .pure _ fun _ => .inl) fun _ => logEvent_wrote e w

section Reconfigure

variable (w : List Bytes)

theorem written_modify {f : Daemon → Daemon} (h : ∀ d, (f d).written = d.written) :
    Triple (Written w) (modify f) (fun _ => Written w) Any :=
  .modify fun d hd => (h d).trans hd

theorem written_whenever {c : Prop} [Decidable c] {m : LogM Unit}
    (h : Triple (Written w) m (fun _ => Written w) Any) :
    Triple (Written w) (whenever c m) (fun _ => Written w) Any :=
  .ite (fun _ => h) fun _ => .pure _ fun _ => id

theorem recheckSpace_written : Triple (Written w) recheckSpace (fun _ => Written w) Any := by
  have hpercent : Triple (Written w) setupPercentages (fun _ => Written w) Any := by
    refine .bind ((Steps.outcome _).silent.written w) fun _ =>
      .bind ((Steps.outcome _).silent.written w) fun _ => written_modify w fun d => ?_
    split <;> rfl
  refine .read fun _ _ => .bind hpercent fun _ =>
    .bind (written_modify w fun _ => rfl) fun _ =>
    .bind (steps_checkSpaceLeft.silent.written w) fun _ => written_modify w fun d => ?_
  split <;> rfl

theorem reconfigure_written (n : DaemonConf) :
    Triple (Written w) (reconfigure n) (fun _ => Written w) Any := by
  refine .read fun _ _ => .bind (written_modify w fun _ => rfl) fun _ =>
    .bind (written_whenever w (.bind (written_modify w fun _ => rfl) fun _ =>
      steps_checkLogFileSize.silent.written w)) fun _ => ?_
  refine .bind (written_modify w fun _ => rfl) fun _ =>
    .bind (written_whenever w (steps_reopenAfterReconfigure.silent.written w)) fun _ => ?_
  exact .bind (written_modify w fun _ => rfl) fun _ => written_whenever w (recheckSpace_written w)

end Reconfigure

/-! ## The text of an event -/

/-- The text that is logged for an event, if there is one. -/
def Arrival.text (F : Formatting) : Arrival → Option Bytes
  | .network c => c.event.map Event.message
  | .record rep => if rep.type = 0 then some rep.unformatted else formatEvent F rep
  | .reconfigure _ rep => formatEvent F rep

/-- Only the text of the event is written, and at most once. -/
theorem distribute_wrote (F : Formatting) (a : Arrival) (w : List Bytes) :
    Triple (Written w) (distribute F a)
      (fun _ d => Written w d ∨ ∃ text, a.text F = some text ∧ Written (w ++ [text]) d) Any := by
  have hpost {text : Bytes} (h : a.text F = some text) (u : Unit) (d : Daemon)
      (hd : Wrote w text d) :
      Written w d ∨ ∃ text, a.text F = some text ∧ Written (w ++ [text]) d :=
    hd.imp_right fun hd => ⟨text, h, hd⟩
  cases a with
  | network c =>
    rw [distribute, receive]
    cases hevent : c.event with
    | none => exact .pure _ fun _ => .inl
    | some e =>
      have htext : (Arrival.network c).text F = some e.message := by simp [Arrival.text, hevent]
      exact .read fun d _ => (handle_event_wrote _ w).post (hpost htext)
  | record rep =>
    refine .ite (fun htype => ?_) fun htype => ?_
    · have htext : (Arrival.record rep).text F = some rep.unformatted := by simp [Arrival.text, htype]
      exact .read fun d _ => (handle_event_wrote _ w).post (hpost htext)
    · cases hformat : formatEvent F rep with
      | none => exact .pure _ fun _ => .inl
      | some message =>
        have htext : (Arrival.record rep).text F = some message := by
          simp [Arrival.text, htype, hformat]
        exact (handle_event_wrote _ w).post (hpost htext)
  | reconfigure n rep =>
    rw [distribute]
    cases hformat : formatEvent F rep with
    | none => exact .pure _ fun _ => .inl
    | some message =>
      refine .bind (reconfigure_written w n) fun _ => .read fun d _ => ?_
      refine .ite (fun _ => .pure _ fun _ => .inl) fun _ => ?_
      exact (logEvent_wrote _ w).post (hpost hformat)

theorem newline_notMem_text_iff {F : Formatting} {a : Arrival} {text : Bytes}
    (h : a.text F = some text) : 10 ∉ text ↔ Clean F a := by
  cases a with
  | network c =>
    obtain ⟨e, hevent, rfl⟩ := Option.map_eq_some_iff.mp h
    have htext : e.message = c.text := by
      rw [Call.event] at hevent
      split at hevent
      · split at hevent
        · cases hevent
        · rw [createEvent] at hevent
          split at hevent
          · cases hevent
            rfl
          · cases hevent
      · cases hevent
    rw [htext]
    exact Iff.rfl
  | record rep =>
    rw [Arrival.text] at h
    rw [Clean]
    split at h
    · rename_i htype
      cases h
      rw [if_pos htype]
    · rename_i htype
      rw [if_neg htype]
      exact newline_notMem_formatEvent_iff h
  | reconfigure n rep => exact newline_notMem_formatEvent_iff h

theorem oneLine_iff (text : Bytes) : OneLine (text ++ [10]) ↔ 10 ∉ text := by
  simp [OneLine, count_append, count_eq_zero]

/-- **When an event is one line of the log**: whenever an event is logged, the log grows by exactly one
line if the text of the event is clean, and only then. -/
theorem grows_by_one_line_iff (F : Formatting) (a : Arrival) (d d' : Daemon)
    (hrun : distribute F a d = .ok () d') (hlogged : d'.written ≠ d.written) :
    OneLine (growth d d') ↔ Clean F a := by
  rcases (distribute_wrote F a d.written).of_ok rfl hrun with hsame | ⟨text, htext, hwritten⟩
  · exact absurd hsame hlogged
  · have hgrowth : growth d d' = text ++ [10] := by
      rw [growth, hwritten, drop_left]
      simp
    rw [hgrowth, oneLine_iff, newline_notMem_text_iff htext]

/-- The raw format, without a name for the node. -/
def rawFormat : Formatting := ⟨emptyEnv, .raw, none⟩

/-- A local record with a newline in it. -/
def twoLineRecord : LocalRecord := ⟨1005, some (ascii "one\ntwo")⟩

theorem local_record_one_line :
    ∃ d', distribute rawFormat (.record twoLineRecord) startedDaemon = .ok () d' ∧
      d'.written ≠ startedDaemon.written ∧ OneLine (growth startedDaemon d') := by
  refine ⟨_, rfl, cons_ne_nil _ _, ?_⟩
  refine (grows_by_one_line_iff rawFormat (.record twoLineRecord) startedDaemon _ rfl
    (cons_ne_nil _ _)).mpr ?_
  exact trivial

/-- A message from the network with a newline in it. -/
def twoLineMessage : Call := messageSeven "type=USER msg=one\ntwo"

/-- One event becomes two lines of the log. -/
theorem network_event_two_lines :
    ∃ d', distribute rawFormat (.network twoLineMessage) startedDaemon = .ok () d' ∧
      d'.written ≠ startedDaemon.written ∧ growth startedDaemon d' = ascii "type=USER msg=one\ntwo\n" ∧
      ¬ OneLine (growth startedDaemon d') := by
  have htext : twoLineMessage.text = ascii "type=USER msg=one\ntwo" := by decide +kernel
  have hrun : ∃ d', receive twoLineMessage startedDaemon = .ok () d' ∧
      d'.written = [twoLineMessage.text] := by
    rw [receive_eq (by decide) (by decide) rfl]
    exact ⟨_, rfl, rfl⟩
  obtain ⟨d', hrun, hwritten⟩ := hrun
  have hgrowth : growth startedDaemon d' = ascii "type=USER msg=one\ntwo\n" := by
    have hnone : startedDaemon.written = [] := rfl
    rw [growth, hwritten, hnone, htext]
    decide +kernel
  refine ⟨d', hrun, ?_, hgrowth, ?_⟩
  · rw [hwritten]
    exact cons_ne_nil _ _
  · rw [hgrowth]
    rintro ⟨hcount, -⟩
    exact absurd hcount (by decide +kernel)

end LibAudit.Auditd
