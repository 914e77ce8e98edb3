import LibAudit.Lib.Framing
import LibAudit.Auditd.Listen

/-!
# What the client handler makes of a stream

`firstMessage` says where the first message of a stream ends, if all of it has been received; it
does not depend on what follows (`messages` is a `Framer`), so the messages of a stream,
`messages.split`, do not depend on how it was cut into reads.

The invariant of the handler is `Live`: `client_message` has been called once for each complete
message received, in order, and the buffer holds what is left over.  It is kept until the
connection is closed (`serve_live`), and closing it makes one more call if anything is left over.
-/

namespace LibAudit.Auditd

open Wire Word List Option

/-! ## Messages at the front of a stream -/

variable {b : Bytes} {n : Nat} {io : Client}

/-- The magic number has no newline in it. -/
theorem newline_notMem_of_isMagic (h : isMagic b n = true)
    (hb : 4 ≤ b.length) : 10 ∉ b.take 4 := by
  rw [isMagic, Bool.and_eq_true, decide_eq_true_eq, decide_eq_true_eq] at h
  have hmagic : b.take 4 = bytesLE 4 rmwMagic :=
    ofBytesLE_inj (by simp [hb]) (h.2.trans (ofBytesLE_bytesLE_of_lt (by decide)).symm)
  rw [hmagic]
  decide

theorem isMagic_mono {a : Bytes} {k : Nat} (hk : k ≤ n) (h : a.take k = b.take k)
    (ha : isMagic a k = true) : isMagic b n = true := by
  rw [isMagic_congr h, isMagic, Bool.and_eq_true, decide_eq_true_eq] at ha
  simp only [isMagic, ha.2, Bool.and_true, decide_eq_true_eq]
  omega

theorem isMagic_of_take {a : Bytes} {k : Nat} (hk : 4 ≤ k) (h : a.take k = b.take k)
    (hb : isMagic b n = true) : isMagic a k = true := by
  rw [isMagic, Bool.and_eq_true, decide_eq_true_eq] at hb
  rw [isMagic_congr h]
  simp only [isMagic, hb.2, hk, decide_true, Bool.and_true]

/-- The length of the message a stream starts with, if all of it is there. -/
def firstMessage (b : Bytes) : Option Nat := nextMessage b 0 b.length

theorem firstMessage_eq (b : Bytes) : firstMessage b =
    if isMagic b b.length then
      if b.length < rmwHeaderSize then none
      else if Wire.maxAuditMessageLength < (unpackHeader b).len then none
      else if b.length < (unpackHeader b).len + rmwHeaderSize then none
      else some ((unpackHeader b).len + rmwHeaderSize)
    else (b.findIdx? (· == 10)).map (· + 1) := by
  simp [firstMessage, nextMessage]

theorem firstMessage_magic (hm : isMagic b b.length = true) :
    firstMessage b = some n ↔ n = (unpackHeader b).len + rmwHeaderSize ∧
      (unpackHeader b).len ≤ Wire.maxAuditMessageLength ∧ n ≤ b.length := by
  rw [firstMessage_eq, if_pos hm]
  grind

/-- A line at the front. -/
theorem firstMessage_line (hm : isMagic b b.length = false) :
    firstMessage b = some n ↔ ∃ i, b.findIdx? (· == 10) = some i ∧ n = i + 1 := by
  rw [firstMessage_eq, if_neg (by simp [hm]), map_eq_some_iff]
  simp only [eq_comm]

theorem firstMessage_append (c : Bytes) (h : firstMessage b = some n) :
    firstMessage (b ++ c) = some n := by
  have htake : b.take b.length = (b ++ c).take b.length := by simp
  have hlen : b.length ≤ (b ++ c).length := by simp
  cases hm : isMagic b b.length with
  | true =>
    obtain ⟨hn, hmax, hle⟩ := (firstMessage_magic hm).mp h
    have hheader : unpackHeader (b ++ c) = unpackHeader b := by
      refine unpackHeader_congr ?_
      rw [take_append_of_le_length (by omega)]
    exact (firstMessage_magic (isMagic_mono hlen htake hm)).mpr
      ⟨by rw [hheader, hn], by rw [hheader]; exact hmax, hle.trans hlen⟩
  | false =>
    obtain ⟨i, hi, hn⟩ := (firstMessage_line hm).mp h
    have hline : isMagic (b ++ c) (b ++ c).length = false := by
      by_contra hmagic
      rw [Bool.not_eq_false] at hmagic
      by_cases h4 : 4 ≤ b.length
      · exact absurd (isMagic_of_take h4 htake hmagic) (by simp [hm])
      · -- the newline is one of the four bytes the magic number takes up
        have h4' : 4 ≤ (b ++ c).length := by
          rw [isMagic, Bool.and_eq_true, decide_eq_true_eq] at hmagic
          exact hmagic.1
        refine newline_notMem_of_isMagic hmagic h4' ?_
        obtain ⟨hlt, heq, -⟩ := findIdx?_eq_some_iff_getElem.mp hi
        have hmem : b.get ⟨i, hlt⟩ ∈ b := get_mem b ⟨i, hlt⟩
        rw [get_eq_getElem, eq_of_beq heq] at hmem
        rw [take_append, take_of_length_le (by omega)]
        exact mem_append_left _ hmem
    refine (firstMessage_line hline).mpr ⟨i, ?_, hn⟩
    rw [findIdx?_append, hi]
    rfl

theorem firstMessage_take (h : firstMessage b = some n) : firstMessage (b.take n) = some n := by
  have htake : (b.take n).take n = b.take n := by rw [take_take, Nat.min_self]
  cases hm : isMagic b b.length with
  | true =>
    obtain ⟨hn, hmax, hle⟩ := (firstMessage_magic hm).mp h
    have hlen : (b.take n).length = n := by simp [hle]
    have hheader : unpackHeader (b.take n) = unpackHeader b := by
      refine unpackHeader_congr ?_
      rw [take_take, Nat.min_eq_left (by omega)]
    refine (firstMessage_magic ?_).mpr ⟨by rw [hheader, hn], by rw [hheader]; exact hmax, hlen.ge⟩
    rw [hlen]
    exact isMagic_of_take (by rw [hn, rmwHeaderSize]; omega) htake hm
  | false =>
    obtain ⟨i, hi, rfl⟩ := (firstMessage_line hm).mp h
    obtain ⟨hlt, heq, hall⟩ := findIdx?_eq_some_iff_getElem.mp hi
    have hlen : (b.take (i + 1)).length = i + 1 := by simp; omega
    have hline : isMagic (b.take (i + 1)) (b.take (i + 1)).length = false := by
      by_contra hmagic
      rw [Bool.not_eq_false, hlen] at hmagic
      rw [isMagic_mono hlt htake hmagic] at hm
      exact absurd hm (by simp)
    refine (firstMessage_line hline).mpr ⟨i, findIdx?_eq_some_iff_getElem.mpr ?_, rfl⟩
    exact ⟨by omega, by simpa using heq, fun j hj => by simpa using hall j hj⟩

theorem firstMessage_pos (h : firstMessage b = some n) : 0 < n := by
  cases hm : isMagic b b.length with
  | true =>
    obtain ⟨hn, -, -⟩ := (firstMessage_magic hm).mp h
    rw [hn, rmwHeaderSize]
    omega
  | false =>
    obtain ⟨i, -, rfl⟩ := (firstMessage_line hm).mp h
    omega

theorem firstMessage_le (h : firstMessage b = some n) : n ≤ b.length := by
  cases hm : isMagic b b.length with
  | true => exact ((firstMessage_magic hm).mp h).2.2
  | false =>
    obtain ⟨i, hi, rfl⟩ := (firstMessage_line hm).mp h
    exact (findIdx?_eq_some_iff_getElem.mp hi).1

/-- **Messages delimit themselves**, whatever the stream goes on with. -/
def messages : Framer UInt8 where
  first := firstMessage
  first_pos := firstMessage_pos
  first_le := firstMessage_le
  first_append := firstMessage_append
  first_take := firstMessage_take

/-- The handler looks for a newline among the new bytes only, and misses nothing: there was no
complete message before. -/
theorem nextMessage_eq_firstMessage {buffer : Bytes} {bufptr r : Nat}
    (hlen : bufptr + r ≤ buffer.length) (hnone : firstMessage (buffer.take bufptr) = none) :
    nextMessage buffer bufptr r = firstMessage (buffer.take (bufptr + r)) := by
  have hlen' : (buffer.take (bufptr + r)).length = bufptr + r := by simp [hlen]
  have htake : (buffer.take (bufptr + r)).take (bufptr + r) = buffer.take (bufptr + r) := by
    rw [take_take, Nat.min_self]
  rw [firstMessage_eq, nextMessage, hlen', isMagic_congr htake]
  cases hm : isMagic buffer (bufptr + r) with
  | true =>
    by_cases h16 : bufptr + r < rmwHeaderSize
    · simp [h16]
    · have hheader : unpackHeader (buffer.take (bufptr + r)) = unpackHeader buffer := by
        refine unpackHeader_congr ?_
        rw [take_take, Nat.min_eq_left (by omega)]
      rw [hheader, if_pos rfl, if_pos rfl]
  | false =>
    have hline : isMagic (buffer.take bufptr) (buffer.take bufptr).length = false := by
      by_contra hmagic
      rw [Bool.not_eq_false, length_take, Nat.min_eq_left (by omega)] at hmagic
      rw [isMagic_mono (Nat.le_add_right bufptr r) (by rw [take_take, Nat.min_self]) hmagic] at hm
      exact absurd hm (by simp)
    rw [firstMessage_eq, if_neg (Bool.eq_false_iff.mp hline), map_eq_none_iff] at hnone
    rw [if_neg (by simp), if_neg (by simp), take_add, findIdx?_append, hnone,
      Option.none_or, Option.map_map, length_take, Nat.min_eq_left (by omega)]
    congr 1
    funext i
    simp only [Function.comp_apply]
    omega

/-! ## The loop over the messages in the buffer -/

/-- A call made with a message that is in the buffer. -/
structure Call.InBuffer (c : Call) : Prop where
  length_le : c.length ≤ Wire.maxAuditMessageLength
  size : c.header.length = bufferSize

theorem Call.InBuffer.length_message {c : Call} (h : c.InBuffer) : c.message.length = c.length := by
  have hle := h.length_le
  rw [Call.message, length_take, h.size, Nat.min_eq_left]
  rw [bufferSize]
  omega

theorem Call.length_terminated (c : Call) : c.terminated.length = c.header.length := by
  rw [Call.terminated]
  split <;> simp

theorem Call.drop_after (c : Call) : c.after.drop c.length = c.header.drop c.length := by
  rw [Call.after]
  split
  · refine ext_getElem? fun j => ?_
    rw [getElem?_drop, getElem?_drop]
    rcases Nat.eq_zero_or_pos j with rfl | hj
    · rw [Nat.add_zero, getElem?_set_self']
      rcases Nat.lt_or_ge c.length c.header.length with hlt | hge
      · simp [getD_eq_getElem?_getD, hlt, length_terminated]
      · simp [hge, length_terminated]
    · have hset (l : Bytes) (b : UInt8) : (l.set c.length b)[c.length + j]? = l[c.length + j]? := by
        rw [getElem?_set_ne (by omega)]
      rw [hset, Call.terminated]
      split
      · rw [getElem?_set_ne (by omega), hset]
      · rw [hset]
  · rfl

theorem Call.length_after (c : Call) : c.after.length = c.header.length := by
  rw [Call.after]
  split
  · rw [length_set, length_terminated]
  · rfl

/-- What `moreMessages` has done with the buffer of `io` and `r` more bytes. -/
structure Processed (io : Client) (r : Nat) (res : Client × Bool) : Prop where
  sock : res.1.sock = io.sock
  received : res.1.received = io.received
  closed : res.1.closed = io.closed
  size : res.1.buffer.length = bufferSize
  calls : ∃ new, res.1.calls = io.calls ++ new ∧ (∀ c ∈ new, c.InBuffer) ∧
    new.map Call.message = (messages.split (io.buffer.take (io.bufptr + r))).1
  rest : res.1.buffer.take res.1.bufptr = (messages.split (io.buffer.take (io.bufptr + r))).2
  bufptr : res.1.bufptr = (messages.split (io.buffer.take (io.bufptr + r))).2.length
  more : res.2 = decide (res.1.bufptr = 0)

theorem take_dropMessage (io : Client) {i : Nat} (hlen : io.buffer.length = bufferSize)
    (hi : i ≤ io.bufptr) (hmax : io.bufptr ≤ Wire.maxAuditMessageLength) :
    (dropMessage i (clientMessage i io)).buffer.take (io.bufptr - i) =
      (io.buffer.take io.bufptr).drop i := by
  have hle : io.bufptr - i ≤ (io.buffer.drop i).length := by
    rw [length_drop, hlen, bufferSize]
    omega
  simp only [dropMessage, clientMessage]
  rw [Call.drop_after ⟨i, io.buffer, io.calloc io.calls.length⟩,
    take_append_of_le_length (by simpa using hle), take_take, Nat.min_self,
    drop_take]

theorem length_dropMessage (io : Client) {i : Nat} (hlen : io.buffer.length = bufferSize)
    (hi : i ≤ io.bufptr) (hmax : io.bufptr ≤ Wire.maxAuditMessageLength) :
    (dropMessage i (clientMessage i io)).buffer.length = bufferSize := by
  simp only [dropMessage, clientMessage, length_append, length_take, length_drop,
    Call.length_after, hlen, bufferSize]
  omega

section Processed

variable {io : Client} {r i : Nat} {res : Client × Bool}

/-- There is no complete message, and what there is stays in the buffer. -/
theorem Processed.none (hlen : io.buffer.length = bufferSize) (hin : io.bufptr + r ≤ io.buffer.length)
    (hr : 0 < r) (hfirst : firstMessage (io.buffer.take (io.bufptr + r)) = .none) :
    Processed io r ({ io with bufptr := io.bufptr + r }, false) := by
  have hsplit := Framer.split_of_none (F := messages) hfirst
  exact
    { sock := rfl
      received := rfl
      closed := rfl
      size := hlen
      calls := ⟨[], by simp, by simp, by rw [hsplit]; rfl⟩
      rest := by rw [hsplit]
      bufptr := by rw [hsplit]; simp [hin]
      more := by simp; omega }

/-- What is left when the first message has been handled. -/
def afterFirst (i r : Nat) (io : Client) : Client :=
  dropMessage i (clientMessage i { io with bufptr := io.bufptr + r })

theorem take_afterFirst (hlen : io.buffer.length = bufferSize) (hi : i ≤ io.bufptr + r)
    (hmax : io.bufptr + r ≤ Wire.maxAuditMessageLength) :
    (afterFirst i r io).buffer.take (io.bufptr + r - i) = (io.buffer.take (io.bufptr + r)).drop i :=
  take_dropMessage { io with bufptr := io.bufptr + r } hlen hi hmax

/-- One call is made for the first message. -/
theorem calls_afterFirst (hlen : io.buffer.length = bufferSize) (hi : i ≤ io.bufptr + r)
    (hmax : io.bufptr + r ≤ Wire.maxAuditMessageLength) :
    ∃ c : Call, (afterFirst i r io).calls = io.calls ++ [c] ∧ c.InBuffer ∧
      c.message = (io.buffer.take (io.bufptr + r)).take i :=
  ⟨⟨i, io.buffer, io.calloc io.calls.length⟩, rfl, ⟨hi.trans hmax, hlen⟩, by
    rw [Call.message, take_take, Nat.min_eq_left hi]⟩

/-- There are more bytes: they are looked at as if they had just been read. -/
theorem Processed.more_bytes (hlen : io.buffer.length = bufferSize) (hi : i ≤ io.bufptr + r)
    (hmax : io.bufptr + r ≤ Wire.maxAuditMessageLength)
    (hfirst : firstMessage (io.buffer.take (io.bufptr + r)) = some i)
    (h : Processed { afterFirst i r io with bufptr := 0 } (io.bufptr + r - i) res) :
    Processed io r res := by
  have hsplit := Framer.split_of_some (F := messages) hfirst
  obtain ⟨c, hc, hcall, hmessage⟩ := calls_afterFirst hlen hi hmax
  obtain ⟨hsock, hreceived, hclosed, hsize, ⟨new, hnew, hin, hmap⟩, hrest, hbufptr, hmore⟩ := h
  simp only [Nat.zero_add, take_afterFirst hlen hi hmax] at hmap hrest hbufptr
  refine ⟨hsock, hreceived, hclosed, hsize, ⟨c :: new, ?_, forall_mem_cons.mpr ⟨hcall, hin⟩, ?_⟩,
    by rw [hsplit, hrest], by rw [hsplit, hbufptr], hmore⟩
  · rw [hnew, hc, append_assoc]
    rfl
  · rw [hsplit, map_cons, hmap, hmessage]

/-- The first message was all there is. -/
theorem Processed.last (hlen : io.buffer.length = bufferSize) (hi : i = io.bufptr + r)
    (hmax : io.bufptr + r ≤ Wire.maxAuditMessageLength)
    (hfirst : firstMessage (io.buffer.take (io.bufptr + r)) = some i) :
    Processed io r (afterFirst i r io, true) := by
  have hsplit := Framer.split_of_some (F := messages) hfirst
  have hdrop : (io.buffer.take (io.bufptr + r)).drop i = [] :=
    drop_eq_nil_of_le (hi ▸ length_take_le _ _)
  obtain ⟨c, hc, hcall, hmessage⟩ := calls_afterFirst hlen hi.le hmax
  have hzero : (afterFirst i r io).bufptr = 0 := Nat.sub_eq_zero_of_le hi.ge
  rw [hdrop, Framer.split_nil] at hsplit
  exact
    { sock := rfl
      received := rfl
      closed := rfl
      size := length_dropMessage { io with bufptr := io.bufptr + r } hlen hi.le hmax
      calls := ⟨[c], hc, forall_mem_singleton.mpr hcall, by rw [hsplit, map_singleton, hmessage]⟩
      rest := by rw [hsplit, hzero, take_zero]
      bufptr := by rw [hsplit, hzero, length_nil]
      more := by rw [hzero]; rfl }

end Processed

/-- **The handler takes every complete message off the buffer**, in order, and keeps the rest. -/
theorem moreMessages_spec : ∀ (fuel r : Nat) (io : Client), io.buffer.length = bufferSize →
    0 < r → io.bufptr + r ≤ fuel → io.bufptr + r ≤ Wire.maxAuditMessageLength →
    firstMessage (io.buffer.take io.bufptr) = none → Processed io r (moreMessages fuel r io)
  | 0, r, io, _, hr, hfuel, _, _ => absurd hfuel (by omega)
  | fuel + 1, r, io, hlen, hr, hfuel, hmax, hnone => by
    have hin : io.bufptr + r ≤ io.buffer.length := by
      rw [hlen, bufferSize]
      omega
    rw [moreMessages, nextMessage_eq_firstMessage hin hnone]
    cases hfirst : firstMessage (io.buffer.take (io.bufptr + r)) with
    | none => exact .none hlen hin hr hfirst
    | some i =>
      have hpos : 0 < i := messages.first_pos hfirst
      have hi : i ≤ io.bufptr + r := (messages.first_le hfirst).trans (length_take_le _ _)
      have hsize : (afterFirst i r io).buffer.length = bufferSize :=
        length_dropMessage { io with bufptr := io.bufptr + r } hlen hi hmax
      show Processed io r
        (if 0 < io.bufptr + r - i then
          moreMessages fuel (io.bufptr + r - i) { afterFirst i r io with bufptr := 0 }
        else (afterFirst i r io, true))
      split
      · refine .more_bytes hlen hi hmax hfirst (moreMessages_spec fuel _ _ hsize ‹_› ?_ ?_ ?_)
        · simp only
          omega
        · simp only
          omega
        · exact Framer.first_nil (F := messages)
      · exact .last hlen (by omega) hmax hfirst

/-! ## The invariant -/

/-- The connection is open, and has been served so far. -/
structure Live (stream : Bytes) (io : Client) : Prop where
  stream : io.received ++ io.sock.incoming = stream
  closed : io.closed = false
  size : io.buffer.length = bufferSize
  inBuffer : ∀ c ∈ io.calls, c.InBuffer
  calls : io.calls.map Call.message = (messages.split io.received).1
  rest : io.buffer.take io.bufptr = (messages.split io.received).2
  bufptr : io.bufptr = (messages.split io.received).2.length
  bufptr_le : io.bufptr ≤ Wire.maxAuditMessageLength

theorem live_accept (sock : Socket) (calloc : Nat → Bool) : Live sock.incoming (accept sock calloc) where
  stream := rfl
  closed := rfl
  size := length_replicate
  inBuffer := fun _ hc => absurd hc (by simp [accept])
  calls := by rw [show (accept sock calloc).received = [] from rfl, Framer.split_nil]; rfl
  rest := by rw [show (accept sock calloc).received = [] from rfl, Framer.split_nil]; rfl
  bufptr := by rw [show (accept sock calloc).received = [] from rfl, Framer.split_nil]; rfl
  bufptr_le := Nat.zero_le _

theorem Live.congr_sock {stream : Bytes} (h : Live stream io) {sock : Socket}
    (hsock : sock.incoming = io.sock.incoming) : Live stream { io with sock := sock } :=
  { h with stream := by rw [← h.stream, ← hsock] }

theorem store_take (bytes : Bytes) (sock : Socket) (h : io.bufptr ≤ io.buffer.length) :
    (store bytes sock io).buffer.take (io.bufptr + bytes.length) =
      io.buffer.take io.bufptr ++ bytes := by
  rw [store, ← append_assoc, take_append_of_le_length (by simp [h]), take_of_length_le (by simp [h])]

theorem store_take_bufptr (bytes : Bytes) (sock : Socket) (h : io.bufptr ≤ io.buffer.length) :
    (store bytes sock io).buffer.take io.bufptr = io.buffer.take io.bufptr := by
  rw [store, take_append_of_le_length (by simp [h]), take_take, Nat.min_self]

/-- **Bytes that are read keep the invariant.** -/
theorem Live.received {stream : Bytes} (h : Live stream io) (bytes : Bytes)
    (sock : Socket) (hbytes : bytes ++ sock.incoming = io.sock.incoming) (hpos : bytes ≠ [])
    (hroom : bytes.length ≤ Wire.maxAuditMessageLength - io.bufptr) :
    Live stream
      (moreMessages (io.bufptr + bytes.length) bytes.length (store bytes sock io)).1 ∧
    (moreMessages (io.bufptr + bytes.length) bytes.length (store bytes sock io)).1.sock = sock := by
  have hle := h.bufptr_le
  have hin : io.bufptr ≤ io.buffer.length := by rw [h.size, bufferSize]; omega
  have hnone : firstMessage ((store bytes sock io).buffer.take io.bufptr) = none := by
    rw [store_take_bufptr bytes sock hin, h.rest]
    exact Framer.first_split_snd (F := messages) io.received
  have hsize : (store bytes sock io).buffer.length = bufferSize := by
    simp only [store, length_append, length_take, length_drop, h.size, bufferSize]
    omega
  have hp := moreMessages_spec (io.bufptr + bytes.length) bytes.length (store bytes sock io) hsize
    (length_pos_iff.mpr hpos) le_rfl (by show io.bufptr + _ ≤ _; omega) hnone
  have hsplit := messages.split_append io.received bytes
  rw [← h.rest, ← store_take bytes sock hin] at hsplit
  obtain ⟨new, hnew, hin', hmap⟩ := hp.calls
  refine ⟨?_, hp.sock⟩
  exact
    { stream := by
        rw [hp.received, hp.sock, ← h.stream, ← hbytes]
        exact append_assoc ..
      closed := hp.closed.trans h.closed
      size := hp.size
      inBuffer := by
        intro c hc
        rw [hnew] at hc
        exact (mem_append.mp hc).elim (h.inBuffer c) (hin' c)
      calls := by
        rw [hnew, map_append, hmap, hp.received]
        show io.calls.map Call.message ++ _ = (messages.split (io.received ++ bytes)).1
        rw [h.calls, hsplit]
        rfl
      rest := by
        rw [hp.rest, hp.received]
        exact (congrArg Prod.snd hsplit).symm
      bufptr := by
        rw [hp.bufptr, hp.received]
        exact congrArg List.length (congrArg Prod.snd hsplit).symm
      bufptr_le := by
        have hflat := Framer.flatten_split (F := messages)
          ((store bytes sock io).buffer.take (io.bufptr + bytes.length))
        have hlen := congrArg List.length hflat
        rw [length_append, length_take] at hlen
        have hb := hp.bufptr
        rw [show (store bytes sock io).bufptr = io.bufptr from rfl] at hb
        omega }

end LibAudit.Auditd
