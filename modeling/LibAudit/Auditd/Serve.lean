import LibAudit.Auditd.Frames

/-!
# A connection from `accept` to its end

What a client sends is served whole, or not: `serve_delivers_iff` says for which sequences of
managed messages every one of them reaches `client_message` and the connection stays open until
the client closes it.  The buffer takes `MAX_AUDIT_MESSAGE_LENGTH` bytes, header included, so a
message with a longest allowed body does not fit: the handler waits for the rest of it with a
buffer that is full, asks `read` for no bytes, gets none, and takes that for the end.

`events_complete_iff` is about any bytes at all: every event comes from a complete message, unless
the connection ends in the middle of one.
-/

namespace LibAudit.Auditd

open Wire List

variable {stream : Bytes}

/-! ## One call of the handler -/

/-- What `read` can do. -/
theorem read_cases (s : Socket) (count : Nat) : (count = 0 ∧ s.read count = (.zero, s)) ∨
    (0 < count ∧ s.arrivals s.tick = 0 ∧ s.read count = (.again, { s with tick := s.tick + 1 })) ∨
    (0 < count ∧ s.incoming = [] ∧ ∃ r, (r = .zero ∨ r = .error) ∧
      s.read count = (r, { s with tick := s.tick + 1, ended := true })) ∨
    (0 < count ∧ ∃ bytes rest, bytes ≠ [] ∧ bytes.length ≤ count ∧ bytes ++ rest = s.incoming ∧
      s.read count = (.data bytes, { s with tick := s.tick + 1, incoming := rest })) := by
  rcases Nat.eq_zero_or_pos count with h0 | hpos
  · exact .inl ⟨h0, by rw [Socket.read, if_pos h0]⟩
  · have hne : count ≠ 0 := by omega
    by_cases ha : s.arrivals s.tick = 0
    · exact .inr (.inl ⟨hpos, ha, by rw [Socket.read, if_neg hne, if_pos ha]⟩)
    · by_cases hi : s.incoming = []
      · refine .inr (.inr (.inl ⟨hpos, hi, ?_⟩))
        rw [Socket.read, if_neg hne, if_neg ha, if_pos hi]
        grind
      · refine .inr (.inr (.inr ⟨hpos, s.incoming.take (min count (s.arrivals s.tick)),
          s.incoming.drop (min count (s.arrivals s.tick)), ?_, ?_, take_append_drop .., ?_⟩))
        · simp_all
        · rw [length_take]
          omega
        · rw [Socket.read, if_neg hne, if_neg ha, if_neg hi]

/-- Why the handler closes a connection: the client did, the buffer is full, or, on the first
read, there was nothing to read after all. -/
def ClosedBecause (first : Prop) (io : Client) : Prop :=
  (io.sock.ended = true ∧ io.sock.incoming = []) ∨ io.bufptr = Wire.maxAuditMessageLength ∨ first

/-- `io'` is `io` after a call of the handler that had read `total` bytes before: still open, with
something read by now, or closed. -/
def Served (stream : Bytes) (total : Nat) (io io' : Client) : Prop :=
  io'.sock.arrivals = io.sock.arrivals ∧
  ((Live stream io' ∧ io'.sock.incoming.length ≤ io.sock.incoming.length ∧
      (0 < total ∨ io'.sock.incoming.length < io.sock.incoming.length)) ∨
    ∃ io0, Live stream io0 ∧ io' = close io0 ∧
      ClosedBecause (total = 0 ∧ io.sock.arrivals io.sock.tick = 0) io0)

@[simp] theorem close_sock (io : Client) : (close io).sock = io.sock := by
  rw [close]
  split <;> rfl

@[simp] theorem close_received (io : Client) : (close io).received = io.received := by
  rw [close]
  split <;> rfl

@[simp] theorem close_closed (io : Client) : (close io).closed = true := rfl

variable {io : Client}

theorem served_close {total : Nat} (h : Live stream io) {sock : Socket}
    (hin : sock.incoming = io.sock.incoming) (harr : sock.arrivals = io.sock.arrivals)
    (hwhy : ClosedBecause (total = 0 ∧ io.sock.arrivals io.sock.tick = 0) { io with sock := sock }) :
    Served stream total io (close { io with sock := sock }) :=
  ⟨by rw [close_sock]; exact harr, .inr ⟨_, h.congr_sock hin, rfl, hwhy⟩⟩

/-- A read that comes back with nothing ends the call, or the connection if it was the first. -/
theorem served_nothing {total : Nat} (h : Live stream io) {sock : Socket}
    (hin : sock.incoming = io.sock.incoming) (harr : sock.arrivals = io.sock.arrivals)
    (hwhy : total = 0 →
      ClosedBecause (total = 0 ∧ io.sock.arrivals io.sock.tick = 0) { io with sock := sock }) :
    Served stream total io
      (if 0 < total then { io with sock := sock } else close { io with sock := sock }) := by
  split
  · rename_i htotal
    exact ⟨harr, .inl ⟨h.congr_sock hin, by rw [← hin], .inl htotal⟩⟩
  · exact served_close h hin harr (hwhy (by omega))

/-- **One call of the handler.** -/
theorem readMore_spec : ∀ (fuel total : Nat) (io : Client), Live stream io →
    io.sock.incoming.length < fuel → Served stream total io (readMore fuel total io)
  | 0, _, io, _, hfuel => absurd hfuel (by omega)
  | fuel + 1, total, io, h, hfuel => by
    rw [readMore]
    rcases read_cases io.sock (Wire.maxAuditMessageLength - io.bufptr) with
      ⟨hfull, hread⟩ | ⟨-, hnone, hread⟩ | ⟨-, hend, r, hr, hread⟩ |
      ⟨-, bytes, rest, hne, hroom, hbytes, hread⟩
    · have hle := h.bufptr_le
      rw [hread]
      exact served_nothing h rfl rfl fun _ =>
        Or.inr (.inl (show io.bufptr = Wire.maxAuditMessageLength by omega))
    · rw [hread]
      exact served_nothing h rfl rfl fun h0 => .inr (.inr ⟨h0, hnone⟩)
    · rw [hread]
      rcases hr with rfl | rfl
      · exact served_nothing h rfl rfl fun _ => .inl ⟨rfl, hend⟩
      · exact served_close h rfl rfl (.inl ⟨rfl, hend⟩)
    · have hpos : 0 < bytes.length := length_pos_iff.mpr hne
      have hlen : bytes.length + rest.length = io.sock.incoming.length := by
        rw [← hbytes, length_append]
      rw [hread]
      obtain ⟨hlive, hsock⟩ := h.received bytes
        { io.sock with tick := io.sock.tick + 1, incoming := rest } hbytes hne hroom
      generalize hres : moreMessages (io.bufptr + bytes.length) bytes.length (store bytes
        { io.sock with tick := io.sock.tick + 1, incoming := rest } io) = res at hlive hsock ⊢
      obtain ⟨io', more⟩ := res
      have hin : io'.sock.incoming.length = rest.length := by rw [hsock]
      have harr : io'.sock.arrivals = io.sock.arrivals := by rw [hsock]
      simp only [hres]
      cases more with
      | false =>
        exact ⟨harr, .inl ⟨hlive, by simp only; omega, .inr (by simp only; omega)⟩⟩
      | true =>
        obtain ⟨harr', ⟨hlive', hle, -⟩ | ⟨io0, hlive0, hclose, hwhy⟩⟩ :=
          readMore_spec fuel (total + bytes.length) io' hlive (by omega)
        · exact ⟨harr'.trans harr, .inl ⟨hlive', by simp only; omega, .inr (by simp only; omega)⟩⟩
        · refine ⟨harr'.trans harr, .inr ⟨io0, hlive0, hclose, ?_⟩⟩
          rcases hwhy with hended | hfull | ⟨h0, -⟩
          · exact .inl hended
          · exact .inr (.inl hfull)
          · omega

/-! ## The event loop -/

theorem serve_of_closed (h : io.closed = true) (n : Nat) : serve n io = io := by
  cases n with
  | zero => rfl
  | succ n => rw [serve, if_pos h]

theorem serve_add (m n : Nat) (io : Client) : serve (m + n) io = serve n (serve m io) := by
  induction m generalizing io with
  | zero => rw [Nat.zero_add, serve]
  | succ m ih =>
    rw [Nat.succ_add, serve, serve]
    split
    · rename_i hclosed
      exact (serve_of_closed hclosed n).symm
    · split <;> exact ih _

/-- **The invariant of the whole run**: the connection is open and served so far, or was until it
was closed. -/
theorem serve_live (n : Nat) (io : Client) (h : Live stream io) :
    Live stream (serve n io) ∨ ∃ io0, Live stream io0 ∧ serve n io = close io0 := by
  induction n generalizing io with
  | zero => exact .inl h
  | succ n ih =>
    rw [serve, if_neg (by simp [h.closed])]
    split
    · exact ih _ (h.congr_sock rfl)
    · obtain ⟨-, ⟨hlive, -⟩ | ⟨io0, hlive, hclose, -⟩⟩ :=
        readMore_spec (io.sock.incoming.length + 1) 0 io h (Nat.lt_succ_self _)
      · exact ih _ hlive
      · refine .inr ⟨io0, hlive, ?_⟩
        rw [auditdTcpClientHandler, hclose, serve_of_closed (close_closed io0)]

/-- The socket becomes readable again and again, until everything has been read. -/
def Socket.Fair (s : Socket) : Prop := ∀ t, ∃ u, t ≤ u ∧ s.arrivals u ≠ 0

/-- Sooner or later the loop calls the handler. -/
theorem serve_wait (h : Live stream io) (hfair : io.sock.Fair) :
    ∃ n sock, serve n io = { io with sock := sock } ∧ sock.incoming = io.sock.incoming ∧
      sock.arrivals = io.sock.arrivals ∧ sock.arrivals sock.tick ≠ 0 := by
  obtain ⟨u, hu, hready⟩ := hfair io.sock.tick
  obtain ⟨k, rfl⟩ := Nat.exists_eq_add_of_le hu
  clear hu
  induction k generalizing io with
  | zero => exact ⟨0, io.sock, rfl, rfl, rfl, hready⟩
  | succ k ih =>
    by_cases hnow : io.sock.arrivals io.sock.tick = 0
    · let io' : Client := { io with sock := { io.sock with tick := io.sock.tick + 1 } }
      obtain ⟨n, sock, hserve, hin, harr, hrd⟩ :=
        @ih io' (h.congr_sock rfl) hfair
          (by
            rwa [Nat.add_right_comm])
      refine ⟨n + 1, sock, ?_, hin, harr, hrd⟩
      rw [serve, if_neg (by simp [h.closed]), if_pos hnow]
      exact hserve
    · exact ⟨0, io.sock, rfl, rfl, rfl, hnow⟩

/-- If the buffer never fills up, the connection is served to the end, and closed by the client. -/
theorem serve_ends (hroom : ∀ a b, a ++ b = stream →
      (messages.split a).2.length < Wire.maxAuditMessageLength) :
    ∀ (k : Nat) (io : Client), io.sock.incoming.length ≤ k → Live stream io → io.sock.Fair →
      ∃ n io0, Live stream io0 ∧ serve n io = close io0 ∧ io0.sock.ended = true ∧
        io0.sock.incoming = [] := by
  intro k
  induction k using Nat.strong_induction_on with
  | _ k ih =>
    intro io hk h hfair
    obtain ⟨n, sock, hserve, hin, harr, hready⟩ := serve_wait h hfair
    have h' : Live stream { io with sock := sock } := h.congr_sock hin
    have hstep : serve (n + 1) io = auditdTcpClientHandler { io with sock := sock } := by
      rw [serve_add, hserve, serve, if_neg (by simp [h.closed]), if_neg hready, serve]
    obtain ⟨harr', ⟨hlive, -, hless⟩ | ⟨io0, hlive, hclose, hwhy⟩⟩ :=
      readMore_spec (sock.incoming.length + 1) 0 { io with sock := sock } h' (Nat.lt_succ_self _)
    · have hlt : (auditdTcpClientHandler { io with sock := sock }).sock.incoming.length < k := by
        have hless' := hless.resolve_left (by omega)
        simp only [hin] at hless'
        exact lt_of_lt_of_le (by simpa [auditdTcpClientHandler, hin] using hless') hk
      obtain ⟨m, io0, hlive0, hclose0, hended⟩ := ih _ hlt
        (auditdTcpClientHandler { io with sock := sock }) le_rfl hlive
        (by
          intro t
          obtain ⟨u, hu, hne⟩ := hfair t
          exact ⟨u, hu, by rw [auditdTcpClientHandler, harr', harr]; exact hne⟩)
      exact ⟨n + 1 + m, io0, hlive0, by rw [serve_add, hstep]; exact hclose0, hended⟩
    · refine ⟨n + 1, io0, hlive, hstep.trans hclose, ?_⟩
      rcases hwhy with hended | hfull | ⟨-, hnone⟩
      · exact hended
      · have hlt := hroom io0.received io0.sock.incoming hlive.stream
        rw [← hlive.bufptr] at hlt
        omega
      · exact absurd hnone hready

/-! ## Managed messages are delivered -/

/-- A managed message as `private.h` allows it. -/
structure Message where
  mver : UInt8
  type : Nat
  seq : Nat
  body : Bytes
  type_lt : type < 2 ^ 32
  seq_lt : seq < 2 ^ 32
  body_le : body.length ≤ Wire.maxAuditMessageLength

namespace Message

/-- The message on the wire. -/
def encode (m : Message) : Bytes := packHeader m.mver m.type m.body.length m.seq ++ m.body

theorem length_encode (m : Message) : m.encode.length = m.body.length + rmwHeaderSize := by
  rw [encode, length_append, length_packHeader, Nat.add_comm]

/-- A message on the wire is complete. -/
theorem firstMessage_encode (m : Message) : firstMessage m.encode = some m.encode.length := by
  have hbody := m.body_le
  have hmagic : isMagic m.encode m.encode.length = true :=
    isMagic_packHeader m.body (by rw [length_encode, rmwHeaderSize]; omega)
  have hheader : unpackHeader (packHeader m.mver m.type m.body.length m.seq ++ m.body) =
      ⟨rmwHeaderVersion, m.mver, m.type, m.body.length, m.seq⟩ :=
    unpackHeader_packHeader m.type_lt
      (show m.body.length < 2 ^ 16 by rw [Wire.maxAuditMessageLength] at hbody; omega) m.seq_lt m.body
  refine (firstMessage_magic hmagic).mpr ⟨?_, ?_, le_rfl⟩
  · rw [length_encode, encode, hheader]
  · rw [encode, hheader]
    exact hbody

end Message

theorem split_encode (ms : List Message) :
    messages.split (ms.map Message.encode).flatten = (ms.map Message.encode, []) := by
  refine Framer.split_flatten fun b hb => ?_
  obtain ⟨m, -, rfl⟩ := mem_map.mp hb
  exact m.firstMessage_encode

/-- The connection has come to its end, and no sooner than the client closed it, and
`client_message` has been called with each message, whole, in order and once. -/
def Delivered (ms : List Message) (io : Client) : Prop :=
  io.closed = true ∧ io.sock.ended = true ∧ io.calls.map Call.message = ms.map Message.encode

theorem serve_inBuffer (h : Live stream io) (n : Nat) : ∀ c ∈ (serve n io).calls, c.InBuffer := by
  rcases serve_live n io h with hlive | ⟨io0, hlive, hclose⟩
  · exact hlive.inBuffer
  · intro c hc
    rw [hclose, close] at hc
    split at hc
    · rcases mem_append.mp hc with hold | hnew
      · exact hlive.inBuffer c hold
      · obtain rfl := mem_singleton.mp hnew
        exact ⟨hlive.bufptr_le, hlive.size⟩
    · exact hlive.inBuffer c hc

theorem body_le_of_delivered {ms : List Message} (h : Live stream io) {n : Nat}
    (hd : Delivered ms (serve n io)) {m : Message} (hm : m ∈ ms) :
    m.body.length + rmwHeaderSize ≤ Wire.maxAuditMessageLength := by
  have hmem : m.encode ∈ (serve n io).calls.map Call.message := by
    rw [hd.2.2]
    exact mem_map_of_mem hm
  obtain ⟨c, hc, heq⟩ := mem_map.mp hmem
  have hin := serve_inBuffer h n c hc
  rw [← m.length_encode, ← heq, hin.length_message]
  exact hin.length_le

/-- **Which messages are delivered.**  Whatever pieces the network cuts the stream into, all the
messages are handed over, and the connection is kept until the client closes it, exactly if each
of them fits into the buffer together with its header. -/
theorem serve_delivers_iff {ms : List Message} {sock : Socket}
    (hsock : sock.incoming = (ms.map Message.encode).flatten) (hfair : sock.Fair)
    (calloc : Nat → Bool) :
    (∃ n, Delivered ms (serve n (accept sock calloc))) ↔
      ∀ m ∈ ms, m.body.length + rmwHeaderSize ≤ Wire.maxAuditMessageLength := by
  have hlive := live_accept sock calloc
  constructor
  · rintro ⟨n, hd⟩ m hm
    exact body_le_of_delivered hlive hd hm
  · intro hfit
    have hframes : ∀ b ∈ ms.map Message.encode, messages.first b = some b.length := by
      intro b hb
      obtain ⟨m, -, rfl⟩ := mem_map.mp hb
      exact m.firstMessage_encode
    have hroom : ∀ a b, a ++ b = sock.incoming →
        (messages.split a).2.length < Wire.maxAuditMessageLength := by
      intro a b hab
      rcases eq_or_ne b [] with rfl | hb
      · rw [append_nil] at hab
        rw [hab, hsock, split_encode]
        exact Nat.succ_pos _
      · obtain ⟨e, he, hlt⟩ := Framer.length_split_snd_lt hframes (hab.trans hsock) hb
        obtain ⟨m, hm, rfl⟩ := mem_map.mp he
        have := hfit m hm
        rw [m.length_encode] at hlt
        omega
    obtain ⟨n, io0, hlive0, hclose, hended, hin⟩ :=
      serve_ends hroom sock.incoming.length (accept sock calloc) le_rfl hlive hfair
    have hall : io0.received = (ms.map Message.encode).flatten := by
      rw [← hsock, ← hlive0.stream, hin, append_nil]
    have hcalls := hlive0.calls
    have hbufptr := hlive0.bufptr
    rw [hall, split_encode] at hcalls hbufptr
    have hsame : (close io0).calls = io0.calls := by
      rw [close, if_neg (by simpa using hbufptr)]
    refine ⟨n, ?_⟩
    rw [hclose]
    exact ⟨close_closed io0, by rw [close_sock]; exact hended, by rw [hsame]; exact hcalls⟩

/-- One message of two bytes, which arrives a byte at a time. -/
theorem serve_delivers_byte_by_byte :
    ∃ n, Delivered [⟨0, 0, 7, [104, 105], by decide, by decide, by decide⟩]
      (serve n (accept ⟨packHeader 0 0 2 7 ++ [104, 105], .closed, fun _ => 1, 0, false⟩
        fun _ => true)) :=
  (serve_delivers_iff (by simp [Message.encode]) (fun t => ⟨t, le_rfl, one_ne_zero⟩) _).mpr
    (by decide)

/-- A message with the longest body that is allowed. -/
def Message.longest : Message where
  mver := 0
  type := rmwTypeMessage
  seq := 7
  body := List.replicate Wire.maxAuditMessageLength 97
  type_lt := by decide
  seq_lt := by decide
  body_le := length_replicate.le

/-- The longest body that is allowed is not delivered. -/
theorem longest_message_not_delivered : ¬ ∃ n, Delivered [Message.longest]
      (serve n (accept ⟨Message.longest.encode, .closed, fun _ => 9000, 0, false⟩ fun _ => true)) := by
  rintro ⟨n, hd⟩
  have hle := body_le_of_delivered (live_accept _ _) hd (mem_singleton_self _)
  have hlen : Message.longest.body.length = Wire.maxAuditMessageLength := length_replicate
  rw [hlen] at hle
  exact absurd hle (by decide)

/-! ## Events come from complete messages -/

/-- A message without the newline it may end with. -/
def chomp (b : Bytes) : Bytes := if b.getLast? = some 10 then b.dropLast else b

/-- The event a complete message stands for: its body and its sequence number. -/
def eventOf (m : Bytes) : Event :=
  replaceEventMsg (chomp (m.drop rmwHeaderSize)) (unpackHeader m).seq

/-- A managed message, header and body. -/
def IsManaged (m : Bytes) : Prop :=
  isMagic m m.length = true ∧ m.length = (unpackHeader m).len + rmwHeaderSize

theorem Call.header_eq {c : Call} (h : c.InBuffer) : ∃ b rest, c.header = c.message ++ b :: rest := by
  have hlt : c.length < c.header.length := by
    have := h.length_le
    rw [h.size, bufferSize]
    omega
  refine ⟨c.header.get ⟨c.length, hlt⟩, c.header.drop (c.length + 1), ?_⟩
  rw [Call.message, get_eq_getElem, getElem_cons_drop, take_append_drop]

/-- The string in the buffer is the message, without the newline it may end with. -/
theorem Call.untilNul_terminated {c : Call} (h : c.InBuffer) (h16 : rmwHeaderSize ≤ c.length) :
    untilNul (c.terminated.drop rmwHeaderSize) =
      untilNul (chomp (c.message.drop rmwHeaderSize)) := by
  obtain ⟨b, rest, hheader⟩ := Call.header_eq h
  have hlen := h.length_message
  rw [rmwHeaderSize] at h16 ⊢
  obtain ⟨m, last, hm⟩ : ∃ m last, c.message = m ++ [last] :=
    ⟨_, _, (dropLast_append_getLast (length_pos_iff.mp (by omega))).symm⟩
  have hmlen : m.length + 1 = c.length := by rw [← hlen, hm, length_append]; rfl
  have hset : c.header.set c.length 0 = m ++ last :: 0 :: rest := by
    simp [hheader, ← hlen, hm]
  have hget : (m ++ last :: 0 :: rest).getD (c.length - 1) 0 = last := by
    simp [← hmlen]
  rw [Call.terminated, hset]
  simp only [hget]
  by_cases hlast : last = 10
  · subst hlast
    rw [if_pos ⟨by omega, rfl⟩, ← hmlen, Nat.add_sub_cancel, set_append_right _ _ le_rfl,
      Nat.sub_self, set_cons_zero, hm]
    rcases Nat.lt_or_ge m.length 16 with hlt | hge
    · have hm15 : m.length = 15 := by omega
      rw [drop_append, drop_append, drop_of_length_le (by omega), hm15]
      rfl
    · rw [drop_append_of_le_length hge, drop_append_of_le_length hge,
        untilNul_append_zero, chomp, if_pos (by simp), dropLast_concat]
  · rw [if_neg (fun hand => hlast hand.2), append_cons, ← hm,
      drop_append_of_le_length (by omega), untilNul_append_zero, chomp, if_neg]
    intro hgl
    rw [getLast?_drop, hm] at hgl
    simp_all

theorem replaceEventMsg_congr {a b : Bytes} (h : untilNul a = untilNul b) (sequenceId : Nat) :
    replaceEventMsg a sequenceId = replaceEventMsg b sequenceId := by
  rw [replaceEventMsg, replaceEventMsg, h]

/-- A call for a complete message distributes the event the message stands for, if any. -/
theorem Call.event_of_complete {c : Call} (h : c.InBuffer)
    (hfirst : firstMessage c.message = some c.message.length) {e : Event}
    (he : c.event = some e) : IsManaged c.message ∧ e = eventOf c.message := by
  have hlen := h.length_message
  have htake : c.header.take c.length = c.message.take c.length := by
    rw [Call.message, take_take, Nat.min_self]
  rw [Call.event] at he
  split at he
  · rename_i hmagic
    have hmagic' : isMagic c.message c.message.length = true := by
      rw [hlen, ← isMagic_congr htake]
      exact hmagic
    obtain ⟨hsize, -, -⟩ := (firstMessage_magic hmagic').mp hfirst
    have h16 : rmwHeaderSize ≤ c.length := by rw [← hlen, hsize]; omega
    have hheader : unpackHeader c.header = unpackHeader c.message := by
      refine unpackHeader_congr ?_
      rw [Call.message, take_take, Nat.min_eq_left h16]
    refine ⟨⟨hmagic', hsize⟩, ?_⟩
    split at he
    · exact absurd he (by simp)
    · rw [createEvent] at he
      split at he
      · rw [← Option.some_inj.mp he, eventOf, hheader]
        exact replaceEventMsg_congr (Call.untilNul_terminated h h16) _
      · exact absurd he (by simp)
  · exact absurd he (by simp)

/-- The calls of `client_message` beyond one for each complete message. -/
def closingCalls (io : Client) : List Call := io.calls.drop (messages.split io.received).1.length

/-- There is at most one, made when the connection is closed, and made with what is left over. -/
theorem serve_calls (sock : Socket) (calloc : Nat → Bool) (n : Nat) :
    ∃ done closing, (serve n (accept sock calloc)).calls = done ++ closing ∧
      done.map Call.message = (messages.split (serve n (accept sock calloc)).received).1 ∧
      (∀ c ∈ closing, (serve n (accept sock calloc)).closed = true ∧
        c.message = (messages.split (serve n (accept sock calloc)).received).2) ∧
      closing.length ≤ 1 := by
  rcases serve_live n (accept sock calloc) (live_accept sock calloc) with h | ⟨io, h, hclose⟩
  · exact ⟨_, [], (append_nil _).symm, h.calls, by simp, Nat.zero_le _⟩
  · rw [hclose]
    by_cases hb : io.bufptr = 0
    · have hcalls : (close io).calls = io.calls := by rw [close, if_neg (not_not.mpr hb)]
      exact ⟨io.calls, [], by rw [hcalls, append_nil], by rw [close_received, h.calls],
        by simp, Nat.zero_le _⟩
    · have hcalls : (close io).calls =
          io.calls ++ [⟨io.bufptr, io.buffer, io.calloc io.calls.length⟩] := by
        rw [close, if_pos hb]
        rfl
      refine ⟨io.calls, _, hcalls, by rw [close_received, h.calls], ?_, le_rfl⟩
      rintro c hc
      obtain rfl := mem_singleton.mp hc
      exact ⟨rfl, by rw [close_received]; exact h.rest⟩

/-- Each event distributed so far is that of a complete managed message received on the
connection: the `i`-th call of `client_message` can only stand for the `i`-th message. -/
def EventsComplete (io : Client) : Prop :=
  ∀ (i : Nat) (c : Call) (e : Event), io.calls[i]? = some c → c.event = some e →
    ∃ m, (messages.split io.received).1[i]? = some m ∧ IsManaged m ∧ e = eventOf m

/-- **When events come from complete messages only.**  Whatever a client sends, however it is cut
and whenever it ends, it is enough, and necessary, that the bytes left over at the end do not pass
for a message: they do not start with the magic number, or what the buffer holds in the place of
the type says heartbeat, or there is no memory for the event. -/
theorem events_complete_iff (sock : Socket) (calloc : Nat → Bool) (n : Nat) :
    EventsComplete (serve n (accept sock calloc)) ↔
      ∀ c ∈ closingCalls (serve n (accept sock calloc)), isMagic c.header c.length = true →
        (unpackHeader c.header).type = rmwTypeHeartbeat ∨ c.calloc = false := by
  obtain ⟨done, closing, hcalls, hdone, -, -⟩ := serve_calls sock calloc n
  have hin := serve_inBuffer (live_accept sock calloc) n
  generalize serve n (accept sock calloc) = io at hcalls hdone hin ⊢
  have hlen : (messages.split io.received).1.length = done.length := by
    rw [← hdone, length_map]
  have hclosing : closingCalls io = closing := by
    rw [closingCalls, hlen, hcalls, drop_left]
  rw [hclosing]
  constructor
  · intro hcomplete c hc hmagic
    by_contra hno
    rw [not_or, Bool.not_eq_false] at hno
    obtain ⟨k, hk⟩ := getElem?_of_mem hc
    have hevent : c.event = some
        (replaceEventMsg (c.terminated.drop rmwHeaderSize) (unpackHeader c.header).seq) := by
      rw [Call.event, if_pos hmagic, if_neg hno.1, createEvent, if_pos hno.2]
    obtain ⟨m, hm, -⟩ := hcomplete (done.length + k) c _
      (by rw [hcalls, getElem?_append_right (by omega), Nat.add_sub_cancel_left]; exact hk)
      hevent
    rw [getElem?_eq_none (by omega)] at hm
    exact absurd hm (by simp)
  · intro hquiet i c e hi he
    rcases Nat.lt_or_ge i done.length with hlt | hge
    · rw [hcalls, getElem?_append_left hlt] at hi
      have hget : (messages.split io.received).1[i]? = some c.message := by
        rw [← hdone, getElem?_map, hi]
        rfl
      refine ⟨c.message, hget, Call.event_of_complete (hin c ?_)
        (Framer.first_of_mem_split (F := messages) (mem_of_getElem? hget)) he⟩
      rw [hcalls]
      exact mem_append_left _ (mem_of_getElem? hi)
    · rw [hcalls, getElem?_append_right hge] at hi
      have hc := hquiet c (mem_of_getElem? hi)
      rw [Call.event] at he
      split at he
      · rename_i hmagic
        rcases hc hmagic with hbeat | hmem
        · rw [if_pos hbeat] at he
          exact absurd he (by simp)
        · rw [hmem] at he
          split at he <;> exact absurd he (by simp [createEvent])
      · exact absurd he (by simp)

/-- The client announces five bytes, sends two and closes the connection: the two bytes are
distributed as an event. -/
theorem incomplete_message_is_distributed : ¬ EventsComplete (serve 2
      (accept ⟨packHeader 0 0 5 7 ++ [104, 105], .closed, fun _ => 100, 0, false⟩
        fun _ => true)) := by
  intro hcomplete
  have hevent : (serve 2 (accept ⟨packHeader 0 0 5 7 ++ [104, 105], .closed, fun _ => 100, 0, false⟩
      fun _ => true)).calls.map Call.event = [some ⟨[104, 105], 2, 7⟩] := by decide +kernel
  have hreceived : (serve 2 (accept ⟨packHeader 0 0 5 7 ++ [104, 105], .closed, fun _ => 100, 0,
      false⟩ fun _ => true)).received = packHeader 0 0 5 7 ++ [104, 105] := by decide +kernel
  have hfirst : messages.first (packHeader 0 0 5 7 ++ [104, 105]) = none := by decide +kernel
  obtain ⟨c, hc, hce⟩ := map_eq_singleton_iff.mp hevent
  obtain ⟨m, hm, -⟩ := hcomplete 0 c _ (by rw [hc]; rfl) hce
  rw [hreceived, Framer.split_of_none hfirst] at hm
  exact absurd hm (by simp)

end LibAudit.Auditd
