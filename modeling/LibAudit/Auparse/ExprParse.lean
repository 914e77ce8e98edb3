import LibAudit.Auparse.Expr
import LibAudit.Lib.Number

/-!
# Parsing search expressions: `expr_parse`

A lexer that is called for one token at a time, and a parser by recursive descent.  The parser always
has one token (`Parsing.token`), and it needs the text as well: the value of a time stamp is not a
token, so it is read from where the current one starts, and the lexer goes on behind it.

`parse_or` and `parse_and` are the same loop over a smaller kind of expression (`chain`), which ends
because every turn reads at least one byte.  The only recursion is that of `parse_primary`; it is as
deep as there are exclamation marks and parentheses, so the length of the text bounds it.

Allocations succeed.  Of the message of an error that ends in a NUL, what follows cannot be seen.
-/

namespace LibAudit.Auparse

open Tables

/-! ## Tokens -/

/-- `enum token_type`, with `token_value`. -/
inductive Token where
  | not | and | or
  | raw (ne : Bool)
  | interpreted (ne : Bool)
  | value (op : ValueOp)
  | leftParen | rightParen
  | string (s : Bytes)
  | regexp (s : Bytes)
  | fieldEscape | unknown | eof
  deriving DecidableEq

/-- `struct parsing`. -/
structure Parsing where
  token : Token
  /-- `token_start`. -/
  start : Bytes
  /-- `token_len`. -/
  len : Nat
  src : Bytes
  deriving DecidableEq

/-- The text of the token. -/
def Parsing.text (p : Parsing) : Bytes := p.start.take p.len

/-- A message with the text of the token. -/
def Parsing.complain (p : Parsing) (what : String) : Bytes :=
  ascii what ++ ascii " `" ++ p.text ++ ascii "'"

/-- `INT_MAX`. -/
def intMax : Nat := 2 ^ 31 - 1

/-- A blank, a tab or a newline. -/
def isBlank (c : UInt8) : Bool := c == 32 || c == 9 || c == 10

/-- `IS_UNQUOTED_STRING_CHAR`. -/
def isUnquoted (c : UInt8) : Bool :=
  (decide (97 ≤ c) && decide (c ≤ 122)) || (decide (65 ≤ c) && decide (c ≤ 90)) ||
    (decide (48 ≤ c) && decide (c ≤ 57)) || c == 95 || c == 45

/-- A string or regexp behind its first delimiter: its value, and what follows it. -/
def delimited (delimiter : UInt8) : Bytes → Except Bytes (Bytes × Bytes)
  | [] => .error (ascii "Terminating delimiter missing")
  | c :: src =>
    if c = delimiter then .ok ([], src)
    else if c = 92 then
      match src with
      | [] => .error (ascii "Unknown escape sequence ``\\")
      | d :: src =>
        if d ≠ 92 ∧ d ≠ delimiter then
          .error (ascii "Unknown escape sequence ``\\" ++ d :: ascii "''")
        else (delimited delimiter src).map fun (buf, src) => (d :: buf, src)
    else (delimited delimiter src).map fun (buf, src) => (c :: buf, src)

/-- One token if the second character is `c`, or else another. -/
def oneOrTwo (c : UInt8) (two one : Token) (src : Bytes) : Token × Bytes :=
  if src.head? = some c then (two, src.drop 1) else (one, src)

/-- The token at the beginning of a text that does not start with a blank. -/
def lexToken : Bytes → Except Bytes (Token × Bytes)
  | [] => .ok (.eof, [])
  | c :: src =>
    if c = 33 then
      .ok (if src.take 2 = [61, 61] then (.value .ne, src.drop 2) else (.not, src))
    else if c = 34 then (delimited 34 src).map fun (buf, src) => (.string buf, src)
    else if c = 47 then (delimited 47 src).map fun (buf, src) => (.regexp buf, src)
    else if c = 38 then .ok (oneOrTwo 38 .and .unknown src)
    else if c = 40 then .ok (.leftParen, src)
    else if c = 41 then .ok (.rightParen, src)
    else if c = 60 then .ok (oneOrTwo 61 (.value .le) (.value .lt) src)
    else if c = 61 then .ok (oneOrTwo 61 (.value .eq) .unknown src)
    else if c = 62 then .ok (oneOrTwo 61 (.value .ge) (.value .gt) src)
    else if c = 92 then .ok (.fieldEscape, src)
    else if c = 124 then .ok (oneOrTwo 124 .or .unknown src)
    else if c = 105 ∧ src.head? = some 61 then .ok (.interpreted false, src.drop 1)
    else if c = 105 ∧ src.take 2 = [33, 61] then .ok (.interpreted true, src.drop 2)
    else if c = 114 ∧ src.head? = some 61 then .ok (.raw false, src.drop 1)
    else if c = 114 ∧ src.take 2 = [33, 61] then .ok (.raw true, src.drop 2)
    else if isUnquoted c then
      .ok (.string (c :: src.takeWhile isUnquoted), src.dropWhile isUnquoted)
    else .ok (.unknown, src)

/-- `lex`. -/
def lex (src : Bytes) : Except Bytes Parsing := do
  let start := src.dropWhile isBlank
  let (token, src) ← lexToken start
  let len := start.length - src.length
  if intMax < len then .error (ascii "Token too long") else .ok ⟨token, start, len, src⟩

/-! ## Comparisons -/

/-- `parse_escaped_field_name`. -/
def parseEscapedFieldName (name : Bytes) : Option FieldId :=
  if name = ascii "timestamp" then some .timestamp
  else if name = ascii "record_type" then some .recordType
  else if name = ascii "timestamp_ex" then some .timestampEx
  else none

/-- The names in `typetab.h` of type `AUPARSE_TYPE_UID` or `AUPARSE_TYPE_GID`. -/
def idFields : List Bytes :=
  ["auid", "uid", "euid", "suid", "fsuid", "ouid", "oauid", "old-auid", "iuid", "id", "inode_uid",
    "sauid", "obj_uid", "obj_gid", "gid", "egid", "sgid", "fsgid", "ogid", "igid", "inode_gid",
    "new_gid"].map ascii

/-- `sscanf` of `ts:%jd.%u`, and what follows. -/
def scanTimestamp (s : Bytes) : Option (Int64 × UInt32 × Bytes) := do
  let s ← scanChar 116 s
  let s ← scanChar 115 s
  let s ← scanChar 58 s
  let (sec, s) ← scanSigned s
  let s ← scanChar 46 s
  let (milli, s) ← scanUnsigned 10 none s
  some (sec, milli.toUInt32, s)

/-- What the parser needs: `regcomp`, which returns the message of an error; and what was in the memory
for an expression before, of which the serial number is used if it is not given. -/
structure ParseEnv where
  regcomp : Bytes → Option Bytes
  junk : Bytes → UInt32

variable (env : ParseEnv)

/-- A character that may belong to a time stamp. -/
def isTimestampChar (c : UInt8) : Bool := (ascii "ts:0123456789.").contains c

/-- `parse_timestamp_value`.  The seconds fit into a `time_t`. -/
def parseTimestampValue (ex : Bool) (p : Parsing) : Except Bytes (Constant × Bytes) :=
  match scanTimestamp p.start with
  | none => .error (p.complain "Invalid timestamp value")
  | some (sec, milli, rest) =>
    let serial := (scanChar 58 rest).bind (scanUnsigned 10 none)
    let src := p.start.dropWhile isTimestampChar
    .ok (if ex then .timestampEx sec milli ((serial.map (·.1.toUInt32)).getD (env.junk p.start))
      else .timestamp sec milli, src)

/-- `parse_record_type_value`. -/
def parseRecordTypeValue (v : Bytes) (p : Parsing) : Except Bytes (Constant × Bytes) :=
  let type := auditNameToMsgType v
  if type < 0 then .error (p.complain "Invalid record type") else .ok (.recordType type, p.src)

/-- `parse_unsigned_value`. -/
def parseUnsignedValue (name v : Bytes) (p : Parsing) : Except Bytes (Constant × Bytes) :=
  match strtoul v with
  | none => .error (p.complain "Error converting number")
  | some val => .ok (.unsigned name val.toUInt32, p.src)

/-- The value of a comparison by value, of which `p` is at the string `v`; and where to go on. -/
def parseValue (v : Bytes) (p : Parsing) : FieldRef → Except Bytes (Constant × Bytes)
  | .virtual .timestamp => parseTimestampValue env false p
  | .virtual .recordType => parseRecordTypeValue v p
  | .virtual .timestampEx => parseTimestampValue env true p
  | .name name =>
    if idFields.contains name then parseUnsignedValue name v p
    else .error (ascii "Field `" ++ name ++ ascii "' does not support value comparison")

/-- The string after an operator. -/
def Parsing.expectString (p : Parsing) : Except Bytes Bytes :=
  match p.token with
  | .string v => .ok v
  | _ => .error (p.complain "Value expected, got")

/-- The part of `parse_comparison` behind the field. -/
def parseOperator (field : FieldRef) (p : Parsing) : Except Bytes (Expr × Parsing) := do
  let p ← lex p.src
  match p.token with
  | .raw ne =>
    let p ← lex p.src
    let v ← p.expectString
    return (.raw ne field v, ← lex p.src)
  | .interpreted ne =>
    let p ← lex p.src
    let v ← p.expectString
    return (.interpreted ne field v, ← lex p.src)
  | .value op =>
    let p ← lex p.src
    let v ← p.expectString
    let (c, src) ← parseValue env v p field
    return (.value op c, ← lex src)
  | _ => .error (p.complain "Operator expected, got")

/-- `parse_comparison_regexp`. -/
def parseComparisonRegexp (p : Parsing) : Except Bytes (Expr × Parsing) := do
  let p ← lex p.src
  match p.token with
  | .string re | .regexp re =>
    match env.regcomp re with
    | some msg => .error (ascii "Invalid regexp: " ++ msg)
    | none => return (.regexp re, ← lex p.src)
  | _ => .error (p.complain "Regexp expected, got")

/-- `parse_comparison`, of a field with or without an escape. -/
def parseComparison (p : Parsing) : Except Bytes (Expr × Parsing) :=
  match p.token with
  | .string name => parseOperator env (.name name) p
  | _ => do
    let p ← lex p.src
    match p.token with
    | .string name =>
      if name = ascii "regexp" then parseComparisonRegexp env p
      else
        match parseEscapedFieldName name with
        | none => .error (p.complain "Unknown escaped field name")
        | some id => parseOperator env (.virtual id) p
    | _ => .error (ascii "Field name expected after field escape")

/-! ## Expressions -/

/-- The loop of `parse_and` and of `parse_or`, with `n` turns at most: as long as there is a `token`,
another operand is read. -/
def chain (sub : Parsing → Except Bytes (Expr × Parsing)) (token : Token)
    (op : Expr → Expr → Expr) : Nat → Expr → Parsing → Except Bytes (Expr × Parsing)
  | 0, res, p => .ok (res, p)
  | n + 1, res, p =>
    if p.token = token then do
      let p ← lex p.src
      let (e₂, p) ← sub p
      chain sub token op n (op res e₂) p
    else .ok (res, p)

/-- `parse_and`. -/
def parseAnd (primary : Parsing → Except Bytes (Expr × Parsing)) (p : Parsing) :
    Except Bytes (Expr × Parsing) := do
  let (res, p) ← primary p
  chain primary .and .and (p.src.length + 1) res p

/-- `parse_or`. -/
def parseOr (primary : Parsing → Except Bytes (Expr × Parsing)) (p : Parsing) :
    Except Bytes (Expr × Parsing) := do
  let (res, p) ← parseAnd primary p
  chain (parseAnd primary) .or .or (p.src.length + 1) res p

/-- `parse_primary`, with at most `n` exclamation marks and parentheses inside one another. -/
def parsePrimary : Nat → Parsing → Except Bytes (Expr × Parsing)
  | 0, _ => .error []
  | n + 1, p =>
    match p.token with
    | .not => do
      let p ← lex p.src
      let (e, p) ← parsePrimary n p
      return (.not e, p)
    | .leftParen => do
      let p ← lex p.src
      let (e, p) ← parseOr (parsePrimary n) p
      if p.token ≠ .rightParen then .error (p.complain "Right paren expected, got")
      else return (e, ← lex p.src)
    | .fieldEscape | .string _ => parseComparison env p
    | _ => .error (p.complain "Unexpected token")

/-- `expr_parse`. -/
def exprParse (string : Bytes) : Except Bytes Expr := do
  let src := untilNul string
  let p ← lex src
  if p.token = .eof then .error (ascii "Empty expression")
  else
    let (res, p) ← parseOr (parsePrimary env (src.length + 1)) p
    if p.token ≠ .eof then .error (p.complain "Unexpected trailing token") else return res

end LibAudit.Auparse
