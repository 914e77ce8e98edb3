import LibAudit.Auparse.Feed
import LibAudit.Auparse.Interpret
import LibAudit.Logging.Encode

/-!
# Writing enriched records: `format_raw` and `format_enrich`

The daemon puts the text of a local record into a buffer, lets `auparse` take a copy of it apart, and
appends the interpretation of every user, group, system call, machine and socket address, as long as
there is room.  A separator is between the record and what was appended.

`Buffer.entries` is what has been appended so far.  `format_enrich` has no result if the daemon
crashes: an AVC message may have a field without a name, and the type of a field is found by comparing
its name.

The copy has one line.  It is an event if it has a time stamp and does not end an event.
-/

namespace LibAudit.Auditd

open Auparse Tables Logging

/-! ## The raw format -/

/-- `MAX_AUDIT_MESSAGE_LENGTH`. -/
def maxAuditMessageLength : Nat := 8970

/-- `FORMAT_BUF_LEN`. -/
def formatBufLen : Nat := maxAuditMessageLength + 255

/-- `MIN_SPACE_LEFT`. -/
def minSpaceLeft : Nat := 24

/-- A record from the kernel, or from a program on this machine. -/
structure LocalRecord where
  type : Int
  message : Option Bytes

/-- `audit_msg_type_to_name`, with the text that is used if there is no name. -/
def typeName (type : Int) : Bytes :=
  match msgTypeTable.find? (·.2 == type) with
  | some entry => ascii entry.1
  | none => ascii "UNKNOWN[" ++ printInt type ++ ascii "]"

/-- `format_raw`, with or without the name of the node. -/
def formatRaw (node : Option CString) (rep : LocalRecord) : Bytes :=
  let message := match rep.message with
    | none => ascii "lost"
    | some message => untilNul message
  let body := ascii "type=" ++ typeName rep.type ++ ascii " msg=" ++ message
  let (size, text) := match node with
    | some node => (formatBufLen - 32, ascii "node=" ++ node.bytes ++ 32 :: (body ++ [10]))
    | none => (maxAuditMessageLength - 32, body)
  let buf := (text.take (size - 1)).map fun b => if b = 10 then 32 else b
  -- what was cut off has no last byte to look at
  if text.length < size ∧ buf.getLast? = some 32 then buf.dropLast else buf

/-! ## Appending interpretations -/

/-- An interpretation that is appended. -/
structure Entry where
  kind : Kind
  /-- The name of the field in the record. -/
  name : Bytes
  interp : CString
  deriving DecidableEq

/-- The value that is written: encoded if it is a user or a group. -/
def Entry.value (sign : CharSign) (e : Entry) : Bytes :=
  if e.kind.isId then
    if valueNeedsEncoding sign e.interp.bytes e.interp.strlen then hexEncode e.interp.bytes
    else 34 :: (e.interp.bytes ++ [34])
  else e.interp.bytes

/-- `NAME_SIZE`. -/
def nameSize : Nat := 64

/-- The name in upper case, as far as it fits. -/
def Entry.upperName (e : Entry) : Bytes := (e.name.take (nameSize - 1)).map upcase

/-- The text of an entry. -/
def Entry.text (sign : CharSign) (e : Entry) : Bytes :=
  if e.kind.isId then encodeNvString sign e.upperName (some e.interp) e.interp.strlen
  else e.upperName ++ 61 :: e.interp.bytes

/-- What is behind the raw record, and the room that is left. -/
structure Buffer where
  entries : List Entry
  out : Bytes
  len : Nat
  sepDone : Nat
  deriving DecidableEq

namespace Buffer

/-- `add_separator`. -/
def addSeparator (b : Buffer) : Buffer :=
  if b.sepDone = 0 then
    { b with out := b.out ++ [interpSeparator], len := b.len - 1, sepDone := 1 }
  else { b with sepDone := b.sepDone + 1 }

/-- `add_simple_field`. -/
def addSimpleField (sign : CharSign) (e : Entry) (b : Buffer) : Buffer :=
  -- a text that does not fit is not cut off but left out
  if b.len ≤ 1 + (e.text sign).length + 1 then b
  else
    let text := if 1 < b.sepDone then 32 :: e.text sign else e.text sign
    { b with entries := b.entries ++ [e], out := b.out ++ text, len := b.len - text.length }

/-- A field is appended. -/
def add (sign : CharSign) (e : Entry) (b : Buffer) : Buffer := b.addSeparator.addSimpleField sign e

end Buffer

/-- What the daemon works with: the databases, the sign of `char`, and what lies on the stack. -/
structure Env where
  lookups : Lookups
  sign : CharSign
  junk : Bytes

variable (env : Env)

/-- The loop of `format_enrich` over the fields of the record `p`. -/
def enrichFields (p : Parser) (il : List (Bytes × Bytes)) : List Field → Buffer → Option Buffer
  | [], b => some b
  | f :: fs, b =>
    if b.len ≤ minSpaceLeft then some b
    else
      match f.name with
      | none => none
      | some _ =>
        match f.enrichable p.type with
        | none => enrichFields p il fs b
        | some x =>
          let interp := doInterpretation env.lookups il x.kind x.name (idata env.lookups p.nv x.val)
          enrichFields p il fs (b.add env.sign ⟨x.kind, x.name, interp⟩)

/-- The record of the copy, unless it is no event or one at the beginning of time. -/
def firstRecord (raw : Bytes) : Option Parser :=
  match extractTimestamp raw env.junk with
  | none => none
  | some e =>
    if e.sec = 0 ∨ (parseUpRecord raw).type = auditEoe then none else some (parseUpRecord raw)

/-- `format_enrich`: what is appended to the raw record. -/
def formatEnrich (raw : Bytes) : Option Buffer :=
  let b : Buffer := ⟨[], [], formatBufLen - raw.length, 0⟩
  if b.len ≤ minSpaceLeft then some b
  else
    match firstRecord env raw with
    | none => some b
    | some p => enrichFields env p (loadInterpretationList (interpPart raw)) p.nv b

/-- The line that is logged. -/
def Buffer.line (b : Buffer) (raw : Bytes) : Bytes := raw ++ b.out

/-- The interpretations the daemon computes for the fields of the record. -/
def computed (raw : Bytes) : List Entry :=
  match firstRecord env raw with
  | none => []
  | some p => p.enrichables.map fun x => ⟨x.kind, x.name, doInterpretation env.lookups
      (loadInterpretationList (interpPart raw)) x.kind x.name (idata env.lookups p.nv x.val)⟩

end LibAudit.Auditd
