import LibAudit.Wire.Rmw

/-!
# The client handler of `auditd-listen.c`

`auditd` calls `auditd_tcp_client_handler` whenever a client's socket is readable.  The handler
reads into a buffer, hands every complete message at the front of the buffer to `client_message`,
moves the rest to the front and goes on until there is nothing more to read.  A message is either
managed (it starts with the magic number and says how long it is) or a line of text.

The model keeps the shape of the `goto`s: `readMore` is the label `read_more`, `moreMessages` the
label `more_messages`, and `nextMessage` decides, in either branch of the latter, whether the
buffer holds a whole message.  Bytes of the buffer from `bufptr` on are whatever was left there:
`client_message` is called with a pointer to the whole buffer, and the record `Call` keeps all of
it, because `client_message` looks at the header without asking how much of it has been received.

What the socket holds, and when, is an arbitrary `arrivals`; `serve` is the event loop restricted
to one client, which calls the handler only when the socket is readable.

`total_this_call` is a count without bound here; in the source it is an `int`, only ever compared
with zero.
-/

namespace LibAudit.Auditd

open Wire

/-! ## Events -/

/-- The part of `struct auditd_event` that `create_event` fills in for a network client: the text,
`reply.len` and the sequence number to answer with. -/
structure Event where
  message : Bytes
  len : Nat
  sequenceId : Nat
  deriving DecidableEq

/-- `replace_event_msg` for an event from the network: text that is too long is cut off. -/
def replaceEventMsg (buf : Bytes) (sequenceId : Nat) : Event :=
  let len := (untilNul buf).length
  if len < Wire.maxAuditMessageLength - 1 then ⟨untilNul buf, len, sequenceId⟩
  else ⟨(untilNul buf).take (Wire.maxAuditMessageLength - 1), Wire.maxAuditMessageLength, sequenceId⟩

/-- `create_event`; `calloc` says whether there is memory for the event. -/
def createEvent (msg : Bytes) (sequenceId : Nat) (calloc : Bool) : Option Event :=
  if calloc then some (replaceEventMsg msg sequenceId) else none

/-! ## `client_message` -/

/-- The arguments of a call of `client_message`: `length`, and everything `header` points at.
`calloc` is how an allocation in this call comes out. -/
structure Call where
  length : Nat
  header : Bytes
  calloc : Bool

namespace Call

/-- The message that was passed. -/
def message (c : Call) : Bytes := c.header.take c.length

/-- The buffer with the message turned into a string: a NUL after it, and one in the place of a
newline at its end. -/
def terminated (c : Call) : Bytes :=
  let header := c.header.set c.length 0
  if 1 < c.length ∧ header.getD (c.length - 1) 0 = 10 then header.set (c.length - 1) 0 else header

/-- The buffer as `client_message` leaves it: the byte after the message is put back, a newline at
its end is not. -/
def after (c : Call) : Bytes :=
  if isMagic c.header c.length then c.terminated.set c.length (c.header.getD c.length 0)
  else c.header

/-- The event that is distributed, if any. -/
def event (c : Call) : Option Event :=
  if isMagic c.header c.length then
    if (unpackHeader c.header).type = rmwTypeHeartbeat then none
    else createEvent (c.terminated.drop rmwHeaderSize) (unpackHeader c.header).seq c.calloc
  else none

/-- The answer to a heartbeat, which is sent at once. -/
def ack (c : Call) : Option Bytes :=
  if isMagic c.header c.length ∧ (unpackHeader c.header).type = rmwTypeHeartbeat then
    some (packHeader 0 rmwTypeAck 0 (unpackHeader c.header).seq)
  else none

end Call

/-! ## The socket -/

/-- What `read` finds after the client's last byte. -/
inductive Hangup
  | closed
  | failed
  deriving DecidableEq, Repr

/-- The receiving end of a connection. -/
structure Socket where
  /-- What has not been read yet of all the client sends. -/
  incoming : Bytes
  hangup : Hangup
  /-- How many bytes are there at most at each look; after the last byte, whether the end is. -/
  arrivals : Nat → Nat
  /-- How many looks there have been. -/
  tick : Nat
  /-- The end of the connection has been read. -/
  ended : Bool

/-- How `read` comes out: with data, with zero, with `EAGAIN` or with another error. -/
inductive ReadResult
  | data (bytes : Bytes)
  | zero
  | again
  | error

/-- `read`.  Asked for no bytes at all, it returns zero without looking. -/
def Socket.read (s : Socket) (count : Nat) : ReadResult × Socket :=
  if count = 0 then (.zero, s)
  else if s.arrivals s.tick = 0 then (.again, { s with tick := s.tick + 1 })
  else if s.incoming = [] then
    (match s.hangup with
      | .closed => .zero
      | .failed => .error, { s with tick := s.tick + 1, ended := true })
  else
    (.data (s.incoming.take (min count (s.arrivals s.tick))),
      { s with
        tick := s.tick + 1
        incoming := s.incoming.drop (min count (s.arrivals s.tick)) })

/-! ## The handler -/

/-- `struct ev_tcp`, with what happened on the connection so far. -/
structure Client where
  sock : Socket
  buffer : Bytes
  bufptr : Nat
  /-- Every byte read so far. -/
  received : Bytes
  /-- Every call of `client_message` so far. -/
  calls : List Call
  /-- How the allocations come out, by the number of the call they are made in. -/
  calloc : Nat → Bool
  closed : Bool

/-- `sizeof(io->buffer)`. -/
def bufferSize : Nat := Wire.maxAuditMessageLength + 17

/-- A client that has just been accepted. -/
def accept (sock : Socket) (calloc : Nat → Bool) : Client :=
  { sock, buffer := List.replicate bufferSize 0, bufptr := 0, received := [], calls := [], calloc,
    closed := false }

/-- `client_message(io, length, io->buffer)`. -/
def clientMessage (length : Nat) (io : Client) : Client :=
  let c : Call := ⟨length, io.buffer, io.calloc io.calls.length⟩
  { io with buffer := c.after, calls := io.calls ++ [c] }

/-- Where the first message in the buffer ends, if all of it is there.  There were `bufptr` bytes
and `r` have been added; a newline is only looked for among the latter. -/
def nextMessage (buffer : Bytes) (bufptr r : Nat) : Option Nat :=
  if isMagic buffer (bufptr + r) then
    if bufptr + r < rmwHeaderSize then none
    else if Wire.maxAuditMessageLength < (unpackHeader buffer).len then none
    else if bufptr + r < (unpackHeader buffer).len + rmwHeaderSize then none
    else some ((unpackHeader buffer).len + rmwHeaderSize)
  else
    (((buffer.drop bufptr).take r).findIdx? (· == 10)).map (bufptr + · + 1)

/-- `memmove(io->buffer, io->buffer + i, io->bufptr - i); io->bufptr -= i`. -/
def dropMessage (i : Nat) (io : Client) : Client :=
  { io with
    buffer := (io.buffer.drop i).take (io.bufptr - i) ++ io.buffer.drop (io.bufptr - i)
    bufptr := io.bufptr - i }

/-- From the label `more_messages` on, with `r` new bytes in the buffer.  The answer is whether to
go back to `read_more`. -/
def moreMessages : Nat → Nat → Client → Client × Bool
  | 0, _, io => (io, false)
  | fuel + 1, r, io =>
    match nextMessage io.buffer io.bufptr r with
    | none => ({ io with bufptr := io.bufptr + r }, false)
    | some i =>
      let io' := dropMessage i (clientMessage i { io with bufptr := io.bufptr + r })
      if 0 < io'.bufptr then moreMessages fuel io'.bufptr { io' with bufptr := 0 } else (io', true)

/-- Bytes that `read` has put into the buffer. -/
def store (bytes : Bytes) (sock : Socket) (io : Client) : Client :=
  { io with
    sock := sock
    buffer := io.buffer.take io.bufptr ++ (bytes ++ io.buffer.drop (io.bufptr + bytes.length))
    received := io.received ++ bytes }

/-- The end of the connection.  There may have been a final message without a LF. -/
def close (io : Client) : Client :=
  let io := if io.bufptr ≠ 0 then clientMessage io.bufptr io else io
  { io with closed := true }

/-- From the label `read_more` on. -/
def readMore : Nat → Nat → Client → Client
  | 0, _, io => io
  | fuel + 1, totalThisCall, io =>
    match io.sock.read (Wire.maxAuditMessageLength - io.bufptr) with
    | (.data bytes, sock) =>
      match moreMessages (io.bufptr + bytes.length) bytes.length (store bytes sock io) with
      | (io', true) => readMore fuel (totalThisCall + bytes.length) io'
      | (io', false) => io'
    | (.zero, sock) | (.again, sock) =>
      if 0 < totalThisCall then { io with sock := sock } else close { io with sock := sock }
    | (.error, sock) => close { io with sock := sock }

/-- `auditd_tcp_client_handler`. -/
def auditdTcpClientHandler (io : Client) : Client :=
  readMore (io.sock.incoming.length + 1) 0 io

/-- The event loop, for `n` rounds: the handler is called when the socket is readable. -/
def serve : Nat → Client → Client
  | 0, io => io
  | n + 1, io =>
    if io.closed then io
    else if io.sock.arrivals io.sock.tick = 0 then
      serve n { io with sock := { io.sock with tick := io.sock.tick + 1 } }
    else serve n (auditdTcpClientHandler io)

end LibAudit.Auditd
