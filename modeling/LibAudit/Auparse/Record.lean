import LibAudit.Lib.Text
import LibAudit.Tables.MsgType

/-!
# Splitting a record into fields: `parse_up_record`

A record is a line of words, most of them of the form `name=value`.  `parse_up_record` cuts off what
an enriched record has after a separator, splits the rest at blanks and makes a list of fields.  It
goes on from word to word with a state, `Parser`, because the two unlabelled parts of an AVC message
are recognised by the number of fields so far; the second is everything between two braces, which is
the only place where a word is not looked at by itself.

If the text between the braces is too long the function returns -1, but the record keeps the fields
it has by then, so `failed` is a part of the state.

`au_unescape` and `print_escaped` turn the value of a field into what it stands for.

The arch, syscall, arguments and working directory that `parse_up_record` picks up on the way are not
modelled.
-/

namespace LibAudit.Auparse

open Tables List

/-! ## Values -/

/-- `au_unescape`: what the digits at the beginning of `buf` stand for, up to a NUL; or a text in
parentheses, as it is. -/
def auUnescape (buf : Bytes) : Option Bytes :=
  if buf.head? = some 40 then
    if buf.contains 41 then some (buf.takeWhile (· != 41) ++ [41]) else none
  else
    let str := buf.takeWhile isXDigit
    if str.length < 2 then none else some (untilNul (hexDecode str))

/-- `print_escaped`. -/
def printEscaped (val : Bytes) : Bytes :=
  if val.head? = some 34 then
    let rest := val.drop 1
    if rest.contains 34 then rest.takeWhile (· != 34) else [32]
  else
    let digits := if val.take 2 = [48, 48] then val.drop 2 else val
    (auUnescape digits).getD val

/-- `escape`. -/
def escape (tmp : Bytes) : Bytes :=
  if tmp.any fun b => b == 34 || decide (b < 33) || decide (126 < b) then hexEncode tmp
  else 34 :: (tmp ++ [34])

/-- Digits are read back, up to something else. -/
theorem auUnescape_hexEncode_append {bs rest : Bytes} (hne : bs ≠ []) (hnul : 0 ∉ bs)
    (hrest : ∀ c, rest.head? = some c → isXDigit c = false) :
    auUnescape (hexEncode bs ++ rest) = some bs := by
  have hdigit : ∀ d ∈ hexEncode bs, isXDigit d = true := by
    intro d hd
    obtain ⟨n, hn, rfl⟩ := exists_of_mem_hexEncode hd
    exact isXDigit_hexDigit n hn
  have hstop : rest.takeWhile isXDigit = [] := by
    cases rest with
    | nil => rfl
    | cons c rest => rw [takeWhile_cons_of_neg (by simp [hrest c rfl])]
  have hdigits : (hexEncode bs ++ rest).takeWhile isXDigit = hexEncode bs := by
    rw [takeWhile_append_of_pos hdigit, hstop, append_nil]
  have hlen : 2 ≤ (hexEncode bs).length := by
    have := length_pos_of_ne_nil hne
    rw [length_hexEncode]
    omega
  have hne' : hexEncode bs ≠ [] := ne_nil_of_length_pos (by omega)
  have hparen : (hexEncode bs ++ rest).head? ≠ some 40 := by
    rw [head?_append_of_ne_nil _ hne']
    intro h
    cases (hdigit 40 (mem_of_mem_head? h))
  rw [auUnescape, if_neg hparen]
  show (if ((hexEncode bs ++ rest).takeWhile isXDigit).length < 2 then none
    else some (untilNul (hexDecode ((hexEncode bs ++ rest).takeWhile isXDigit)))) = some bs
  rw [hdigits, if_neg (by omega), hexDecode_hexEncode, untilNul_of_notMem hnul]

/-! ## Fields -/

/-- `nvnode`.  A field of an AVC message may have no name at all. -/
structure Field where
  name : Option Bytes
  val : Bytes
  deriving DecidableEq

/-- The last byte is removed if it is `b`. -/
def chop (b : UInt8) (val : Bytes) : Bytes := if val.getLast? = some b then val.dropLast else val

/-- A closing parenthesis at the end is removed, unless the text is `(none)` or `(null)`. -/
def chopParen (val : Bytes) : Bytes :=
  if val = ascii "(none)" ∨ val = ascii "(null)" then val else chop 41 val

/-- Trailing punctuation is removed. -/
def chopPunctuation (val : Bytes) : Bytes := chopParen (chop 39 (chop 44 (chop 58 val)))

/-- A word with an equal sign, split there.  An opening parenthesis before the name is removed. -/
def splitPair (ptr : Bytes) : Bytes × Bytes :=
  let name := ptr.takeWhile (· != 61)
  (if name.head? = some 40 then name.drop 1 else name,
    chopPunctuation ((ptr.dropWhile (· != 61)).drop 1))

/-- The part of a word that is split into name and value, if any.  The time stamp has none, and
`msg='` is skipped. -/
def pairOf (ptr : Bytes) : Option Bytes :=
  if ptr.take 4 = ascii "msg=" then
    if ptr[4]? = some 97 then none
    else if ptr[4]? = some 39 then
      if (ptr.drop 5).contains 61 then some (ptr.drop 5) else none
    else some ptr
  else some ptr

/-! ## The parser -/

/-- What is known of the record so far. -/
structure Parser where
  nv : List Field
  type : Int
  /-- 1 if the first field is the node. -/
  offset : Nat
  /-- `tmpctx`, between the braces of an AVC message. -/
  braces : Option Bytes
  /-- The function has returned -1. -/
  failed : Bool
  deriving DecidableEq

namespace Parser

/-- The state at the beginning of a record. -/
def start : Parser := ⟨[], 0, 0, none, false⟩

/-- `nvlist_append`. -/
def append (p : Parser) (name : Option Bytes) (val : Bytes) : Parser :=
  { p with nv := p.nv ++ [⟨name, val⟩] }

/-- A field is stored, and what can be learnt from it. -/
def store (p : Parser) (name val : Bytes) : Parser :=
  let q := p.append (some name) val
  if q.nv.length = 1 ∧ name = ascii "node" then { q with offset := 1 }
  else if q.nv.length = 1 + q.offset ∧ name = ascii "type" then
    { q with type := auditNameToMsgType val }
  else q

/-- A key may stand for several: each becomes a field. -/
def storeKey (p : Parser) (val : Bytes) : Parser :=
  if val.head? = some 34 then p.append (some (ascii "key")) val
  else
    match auUnescape val with
    | none => p.append (some (ascii "key")) val
    | some keys =>
      { p with nv := p.nv ++ (words 1 keys).map fun key => ⟨some (ascii "key"), escape key⟩ }

/-- A word with an equal sign. -/
def pair (p : Parser) (ptr : Bytes) : Parser :=
  match pairOf ptr with
  | none => p
  | some ptr =>
    let nv := splitPair ptr
    if nv.1 = ascii "key" ∧ nv.2.head? ≠ some 40 then p.storeKey nv.2 else p.store nv.1 nv.2

/-- `AUDIT_AVC`. -/
def auditAvc : Int := 1400

/-- `AUDIT_USER_AVC`. -/
def auditUserAvc : Int := 1107

/-- A word without an equal sign in an AVC message. -/
def avcWord (p : Parser) (ptr : Bytes) : Parser :=
  if p.nv.length = 1 + p.offset then
    if ptr.take 3 = ascii "avc" then p else p.append (some (ascii "seresult")) ptr
  else if p.nv.length = 2 + p.offset then
    if ptr.head? = some 123 then { p with braces := some [] } else p.append none ptr
  else p

/-- The closing brace. -/
def closeBraces (p : Parser) (tmpctx : Bytes) : Parser :=
  { p.append (some (ascii "seperms")) tmpctx with braces := none }

/-- A word between the braces. -/
def bracesWord (p : Parser) (tmpctx ptr : Bytes) : Parser :=
  if ptr.head? = some 125 then p.closeBraces tmpctx
  else if 256 ≤ ptr.length + 1 + tmpctx.length then { p with failed := true }
  else { p with braces := some (if tmpctx = [] then ptr else tmpctx ++ 44 :: ptr) }

/-- The next word. -/
def word (p : Parser) (ptr : Bytes) : Parser :=
  if p.failed then p
  else
    match p.braces with
    | some tmpctx => p.bracesWord tmpctx ptr
    | none =>
      if ptr.contains 61 then p.pair ptr
      else if p.type = auditAvc ∨ p.type = auditUserAvc then p.avcWord ptr
      else p

/-- The next words. -/
def run (p : Parser) (ptrs : List Bytes) : Parser := ptrs.foldl word p

/-- The end of the record, which also ends what is between braces. -/
def finish (p : Parser) : Parser :=
  match p.failed, p.braces with
  | false, some tmpctx => p.closeBraces tmpctx
  | _, _ => p

end Parser

/-- `AUDIT_INTERP_SEPARATOR`. -/
def interpSeparator : UInt8 := 0x1D

/-- The record without what an enriched record has after the separator. -/
def rawPart (record : Bytes) : Bytes := record.takeWhile (· != interpSeparator)

/-- `parse_up_record`: the parser at the end.  It returns -1 for a blank record as well. -/
def parseUpRecord (record : Bytes) : Parser :=
  match words 32 (rawPart record) with
  | [] => { Parser.start with failed := true }
  | ptrs => (Parser.start.run ptrs).finish

/-! ## Fields are only ever added -/

namespace Parser

theorem nv_store (p : Parser) (name val : Bytes) :
    (p.store name val).nv = p.nv ++ [⟨some name, val⟩] := by
  rw [store]
  split
  · rfl
  · split <;> rfl

theorem nv_prefix_storeKey (p : Parser) (val : Bytes) : p.nv <+: (p.storeKey val).nv := by
  rw [storeKey]
  split
  · exact prefix_append _ _
  · split
    · exact prefix_append _ _
    · exact prefix_append _ _

theorem nv_prefix_pair (p : Parser) (ptr : Bytes) : p.nv <+: (p.pair ptr).nv := by
  unfold pair
  split
  · exact prefix_refl _
  · dsimp only
    split
    · exact p.nv_prefix_storeKey _
    · rw [nv_store]
      exact prefix_append _ _

theorem nv_prefix_avcWord (p : Parser) (ptr : Bytes) : p.nv <+: (p.avcWord ptr).nv := by
  unfold avcWord
  split
  · split
    · exact prefix_refl _
    · exact prefix_append _ _
  · split
    · split
      · exact prefix_refl _
      · exact prefix_append _ _
    · exact prefix_refl _

theorem nv_prefix_bracesWord (p : Parser) (tmpctx ptr : Bytes) :
    p.nv <+: (p.bracesWord tmpctx ptr).nv := by
  unfold bracesWord
  split
  · exact prefix_append _ _
  · split <;> exact prefix_refl _

theorem nv_prefix_word (p : Parser) (ptr : Bytes) : p.nv <+: (p.word ptr).nv := by
  unfold word
  split
  · exact prefix_refl _
  · split
    · exact p.nv_prefix_bracesWord _ _
    · split
      · exact p.nv_prefix_pair _
      · split
        · exact p.nv_prefix_avcWord _
        · exact prefix_refl _

theorem nv_prefix_run (p : Parser) (ptrs : List Bytes) : p.nv <+: (p.run ptrs).nv := by
  induction ptrs generalizing p with
  | nil => exact prefix_refl _
  | cons ptr ptrs ih => exact (p.nv_prefix_word ptr).trans (ih (p.word ptr))

theorem nv_prefix_finish (p : Parser) : p.nv <+: p.finish.nv := by
  unfold finish
  split
  · exact prefix_append _ _
  · exact prefix_refl _

theorem nv_prefix_end (p : Parser) (ptrs : List Bytes) : p.nv <+: (p.run ptrs).finish.nv :=
  (p.nv_prefix_run ptrs).trans (nv_prefix_finish _)

theorem run_append (p : Parser) (a b : List Bytes) : p.run (a ++ b) = (p.run a).run b := foldl_append

/-! ## One word with an equal sign -/

/-- A name that means nothing special to the parser. -/
structure Ordinary (name : Bytes) : Prop where
  noEqual : 61 ∉ name
  noParen : name.head? ≠ some 40
  notMsg : name ≠ ascii "msg"
  notKey : name ≠ ascii "key"

variable {name : Bytes}

theorem pairOf_of_ordinary (val : Bytes) (h : Ordinary name) :
    pairOf (name ++ 61 :: val) = some (name ++ 61 :: val) := by
  rw [pairOf, if_neg]
  intro hmsg
  -- what precedes the first equal sign is `msg` on one side and the name on the other
  have := takeWhile_append_cons h.noEqual val
  rw [← take_append_drop 4 (name ++ 61 :: val), hmsg] at this
  exact h.notMsg this.symm

theorem splitPair_of_ordinary {val : Bytes} (h : Ordinary name) :
    splitPair (name ++ 61 :: val) = (name, chopPunctuation val) := by
  simp only [splitPair, takeWhile_append_cons h.noEqual, dropWhile_append_cons h.noEqual, drop_one,
    tail_cons, if_neg h.noParen]

/-- Outside of braces, a field with an ordinary name is stored. -/
theorem word_of_ordinary {p : Parser} (val : Bytes) (hp : p.failed = false)
    (hbraces : p.braces = none) (h : Ordinary name) :
    p.word (name ++ 61 :: val) = p.store name (chopPunctuation val) := by
  have hequal : (name ++ 61 :: val).contains 61 = true := by simp
  rw [word, hp, if_neg Bool.false_ne_true, hbraces]
  show (if (name ++ 61 :: val).contains 61 then p.pair _ else _) = _
  rw [if_pos hequal, pair, pairOf_of_ordinary val h]
  show (if (splitPair _).1 = ascii "key" ∧ _ then _ else p.store (splitPair _).1 (splitPair _).2) = _
  rw [splitPair_of_ordinary h, if_neg fun hkey => h.notKey hkey.1]

end Parser

theorem chopPunctuation_of_last {val : Bytes} {b : UInt8} (hlast : val.getLast? = some b)
    (hb : b ∉ ([58, 44, 39, 41] : Bytes)) : chopPunctuation val = val := by
  have hchop : ∀ c ∈ ([58, 44, 39, 41] : Bytes), chop c val = val := by
    intro c hc
    refine if_neg fun hval => hb ?_
    rw [hlast] at hval
    exact Option.some_inj.mp hval ▸ hc
  rw [chopPunctuation, hchop 58 (by simp), hchop 44 (by simp), hchop 39 (by simp), chopParen]
  split
  · rfl
  · exact hchop 41 (by simp)

end LibAudit.Auparse
