import LibAudit.Auparse.Record

/-!
# Encoding untrusted values: `audit_logging.c`

`audit_encode_nv_string` writes `name=value` for a record, in hexadecimal digits if there is a byte
in the value that would disturb the record, and between quotes if not.  This module puts the text
into a record and reads it back with `parse_up_record` and `print_escaped`.

The encoded form is always read back.  The quoted form has two faults, both of which
`encodeNvString_read_back_iff` makes precise: it prints all of the value and not its first `vlen`
bytes, and where plain `char` is unsigned the test lets bytes above 0x7f pass.

Memory is taken to be available.
-/

namespace LibAudit.Logging

open Auparse List

/-- Whether plain `char` is signed is up to the platform. -/
inductive CharSign
  | signed | unsigned
  deriving DecidableEq, Repr

/-- The value of a plain `char`. -/
def CharSign.value (sign : CharSign) (b : UInt8) : Int :=
  match sign with
  | .signed => if b < 128 then b.toNat else b.toNat - 256
  | .unsigned => b.toNat

/-- The test of one byte. -/
def disturbs (sign : CharSign) (b : UInt8) : Bool :=
  decide (sign.value b = 34 ∨ sign.value b < 0x21 ∨ sign.value b = 0x7F)

/-- `audit_value_needs_encoding`. -/
def valueNeedsEncoding (sign : CharSign) (str : Bytes) (size : Nat) : Bool :=
  (str.take size).any (disturbs sign)

/-- `audit_encode_value`. -/
def encodeValue (buf : Bytes) (size : Nat) : Bytes := hexEncode (buf.take size)

/-- The length `audit_encode_nv_string` works with. -/
def effectiveLength (value : CString) (vlen : Nat) : Nat := if vlen = 0 then value.strlen else vlen

/-- `audit_encode_nv_string`; without a value, the text has a question mark. -/
def encodeNvString (sign : CharSign) (name : Bytes) (value : Option CString) (vlen : Nat) : Bytes :=
  match value with
  | none => name ++ 61 :: 34 :: (ascii "?" ++ [34])
  | some value =>
    if valueNeedsEncoding sign value.bytes (effectiveLength value vlen) then
      name ++ 61 :: encodeValue value.bytes (effectiveLength value vlen)
    else name ++ 61 :: 34 :: (value.bytes ++ [34])

/-! ## The test -/

/-- A byte that can stand in a record as it is. -/
def Plain (b : UInt8) : Prop := b ≠ 34 ∧ 33 ≤ b ∧ b ≤ 126

variable {b : UInt8} {bs : Bytes}

theorem CharSign.value_of_lt (sign : CharSign) (hb : b < 128) : sign.value b = b.toNat := by
  cases sign with
  | signed => exact if_pos hb
  | unsigned => rfl

theorem disturbs_eq_false_iff (sign : CharSign) (hb : b < 128) : disturbs sign b = false ↔ Plain b := by
  have hlt : b.toNat < 128 := by simpa using UInt8.lt_iff_toNat_lt.mp hb
  rw [disturbs, decide_eq_false_iff_not, sign.value_of_lt hb, Plain, Ne, ← UInt8.toNat_inj,
    UInt8.le_iff_toNat_le, UInt8.le_iff_toNat_le]
  grind

theorem Plain.lt (h : Plain b) : b < 128 :=
  UInt8.lt_iff_toNat_lt.mpr (Nat.lt_of_le_of_lt (UInt8.le_iff_toNat_le.mp h.2.2) (by decide))

/-! ## What is read back -/

theorem plain_hexDigit : ∀ n < 16, hexDigit n ≠ 34 ∧ 33 ≤ hexDigit n ∧ hexDigit n ≤ 126 := by
  decide

theorem plain_of_mem_hexEncode {d : UInt8} (h : d ∈ hexEncode bs) : Plain d := by
  obtain ⟨n, hn, rfl⟩ := exists_of_mem_hexEncode h
  exact plain_hexDigit n hn

theorem chopPunctuation_quoted (bs : Bytes) :
    chopPunctuation (34 :: (bs ++ [34])) = 34 :: (bs ++ [34]) := by
  refine chopPunctuation_of_last (b := 34) ?_ (by decide)
  rw [← cons_append, getLast?_concat]

theorem hexDigit_notMem_punctuation : ∀ n < 16, hexDigit n ∉ ([58, 44, 39, 41] : Bytes) := by
  decide

theorem chopPunctuation_hexEncode (bs : Bytes) : chopPunctuation (hexEncode bs) = hexEncode bs := by
  cases hlast : (hexEncode bs).getLast? with
  | none =>
    rw [getLast?_eq_none_iff.mp hlast]
    rfl
  | some d =>
    obtain ⟨n, hn, rfl⟩ := exists_of_mem_hexEncode (mem_of_getLast? hlast)
    exact chopPunctuation_of_last hlast (hexDigit_notMem_punctuation n hn)

theorem printEscaped_quoted (h : 34 ∉ bs) : printEscaped (34 :: (bs ++ [34])) = bs := by
  have hquote : (bs ++ [34]).contains 34 = true := by simp
  have hhead : (34 :: (bs ++ [34])).head? = some 34 := rfl
  rw [printEscaped, if_pos hhead]
  show (if (bs ++ [34]).contains 34 then (bs ++ [34]).takeWhile (· != 34) else [32]) = bs
  rw [if_pos hquote, takeWhile_append_cons h]

theorem auUnescape_hexEncode (hne : bs ≠ []) (hnul : 0 ∉ bs) :
    auUnescape (hexEncode bs) = some bs := by
  have := auUnescape_hexEncode_append hne hnul (nofun : ∀ c, ([] : Bytes).head? = some c → _)
  rwa [append_nil] at this

/-- The digits do not start with `00`, because the value does not start with a NUL. -/
theorem printEscaped_hexEncode (hne : bs ≠ []) (hnul : 0 ∉ bs) :
    printEscaped (hexEncode bs) = bs := by
  obtain ⟨b, rest, rfl⟩ := exists_cons_of_ne_nil hne
  have hquote : (hexEncode (b :: rest)).head? ≠ some 34 := by
    intro h
    exact (plain_of_mem_hexEncode (mem_of_mem_head? h)).1 rfl
  have hzero : (hexEncode (b :: rest)).take 2 ≠ [48, 48] := by
    intro h
    rw [hexEncode_cons] at h
    injection h with h₁ h₂
    injection h₂ with h₂ _
    exact hnul (hexDigit_zero_zero h₁ h₂ ▸ mem_cons_self)
  rw [printEscaped, if_neg hquote]
  show (auUnescape (if _ then _ else _)).getD _ = _
  rw [if_neg hzero, auUnescape_hexEncode hne hnul]
  rfl

/-! ## In a record -/

/-- A place for a field in a record: after `pre` and a blank, where `pre` has no separator and leaves
no brace open, and before `post`, which is nothing, more fields or an enrichment. -/
structure Place where
  pre : Bytes
  post : Bytes
  noSeparator : interpSeparator ∉ pre
  noBrace : (Parser.start.run (words 32 pre)).braces = none
  notFailed : (Parser.start.run (words 32 pre)).failed = false
  apart : post = [] ∨ post.head? = some 32 ∨ post.head? = some interpSeparator

namespace Place

/-- The record with the text in this place. -/
def record (place : Place) (text : Bytes) : Bytes := place.pre ++ 32 :: (text ++ place.post)

/-- The parser before the text. -/
def before (place : Place) : Parser := Parser.start.run (words 32 place.pre)

/-- The text is read as one field with this name and, after unescaping, this value: behind it the
parser has exactly one field more, and goes on with what follows. -/
def ReadsBack (place : Place) (text name value : Bytes) : Prop :=
  ∃ (p : Parser) (val : Bytes),
    parseUpRecord (place.record text) = (p.run (words 32 (rawPart place.post))).finish ∧
      p.nv = place.before.nv ++ [⟨some name, val⟩] ∧ printEscaped val = value

theorem rawPart_append {a : Bytes} (h : interpSeparator ∉ a) (b : Bytes) :
    rawPart (a ++ b) = a ++ rawPart b := by
  refine takeWhile_append_of_pos fun x hx => ?_
  simp only [bne_iff_ne]
  rintro rfl
  exact h hx

theorem words_record (place : Place) {text : Bytes} (hne : text ≠ []) (hblank : 32 ∉ text)
    (hsep : interpSeparator ∉ text) :
    words 32 (rawPart (place.record text)) =
      words 32 place.pre ++ text :: words 32 (rawPart place.post) := by
  have hraw : rawPart (place.record text) =
      place.pre ++ 32 :: (text ++ rawPart place.post) := by
    rw [record, rawPart_append place.noSeparator, ← cons_append, rawPart_append, cons_append]
    rw [mem_cons]
    rintro (h | h)
    · exact absurd h (by decide)
    · exact hsep h
  have htext : words 32 (text ++ rawPart place.post) = text :: words 32 (rawPart place.post) := by
    cases hpost : rawPart place.post with
    | nil => rw [append_nil, words_of_notMem hblank hne, words_nil]
    | cons b rest =>
      -- what follows the text is not the separator, so it is a blank
      have hb : b = 32 := by
        have hhead : place.post.head? = some b := by
          cases hp : place.post with
          | nil => rw [hp] at hpost; cases hpost
          | cons c cs =>
            rw [hp, rawPart, takeWhile_cons] at hpost
            grind
        have hne : b ≠ interpSeparator := by
          have hmem : b ∈ rawPart place.post := hpost ▸ mem_cons_self
          simpa using mem_takeWhile_imp hmem
        rcases place.apart with h | h | h
        · rw [h] at hhead
          cases hhead
        · exact Option.some_inj.mp (hhead.symm.trans h)
        · exact absurd (Option.some_inj.mp (hhead.symm.trans h)) hne
      rw [hb, words_append_cons, words_of_notMem hblank hne]
      have hcons : words 32 (32 :: rest) = words 32 rest := words_append_cons 32 [] rest
      rw [hcons]
      rfl
  rw [hraw, words_append_cons, htext]

theorem parseUpRecord_record (place : Place) {text : Bytes} (hne : text ≠ [])
    (hblank : 32 ∉ text) (hsep : interpSeparator ∉ text) :
    parseUpRecord (place.record text) =
      ((place.before.word text).run (words 32 (rawPart place.post))).finish := by
  have hwords := place.words_record hne hblank hsep
  rw [parseUpRecord]
  split
  · simp_all
  · rw [hwords, Parser.run_append]
    rfl

theorem readsBack_iff (place : Place) {name val : Bytes} (hname : Parser.Ordinary name)
    (hblank : 32 ∉ name ++ 61 :: val) (hsep : interpSeparator ∉ name ++ 61 :: val)
    (value : Bytes) :
    place.ReadsBack (name ++ 61 :: val) name value ↔ printEscaped (chopPunctuation val) = value := by
  have hne : name ++ 61 :: val ≠ [] := append_ne_nil_of_right_ne_nil _ (cons_ne_nil _ _)
  have hparse := place.parseUpRecord_record hne hblank hsep
  have hword := Parser.word_of_ordinary val place.notFailed place.noBrace hname
  rw [← before] at hword
  rw [hword] at hparse
  have hnv := place.before.nv_store name (chopPunctuation val)
  constructor
  · rintro ⟨p, val', hp, hnv', rfl⟩
    -- both parsers end with the same fields, of which theirs are the first
    have h₁ := (place.before.store name (chopPunctuation val)).nv_prefix_end
      (words 32 (rawPart place.post))
    have h₂ := p.nv_prefix_end (words 32 (rawPart place.post))
    rw [← hparse, hnv] at h₁
    rw [← hp, hnv'] at h₂
    have hsame := prefix_of_prefix_length_le h₁ h₂ (by simp)
    simp_all
  · intro h
    exact ⟨_, _, hparse, hnv, h⟩

end Place

/-! ## The round trip -/

/-- A field name of letters, digits, dashes and underscores that is neither `msg` nor `key`. -/
structure FieldName (name : Bytes) : Prop where
  chars : ∀ b ∈ name, (48 ≤ b ∧ b ≤ 57) ∨ (65 ≤ b ∧ b ≤ 90) ∨ (97 ≤ b ∧ b ≤ 122) ∨ b = 45 ∨ b = 95
  notMsg : name ≠ ascii "msg"
  notKey : name ≠ ascii "key"

/-- What is in the text after the name, with or without quotes around it, is plain. -/
def Unambiguous (name text : Bytes) : Prop :=
  ∃ body, (text = name ++ 61 :: body ∨ text = name ++ 61 :: 34 :: (body ++ [34])) ∧
    ∀ b ∈ body, Plain b

theorem FieldName.notMem {name : Bytes} (h : FieldName name)
    (hb : b = 32 ∨ b = interpSeparator ∨ b = 61 ∨ b = 40) : b ∉ name := by
  intro hmem
  have := h.chars b hmem
  rcases hb with rfl | rfl | rfl | rfl <;> exact absurd this (by decide)

theorem FieldName.ordinary {name : Bytes} (h : FieldName name) : Parser.Ordinary name where
  __ := h
  noEqual := h.notMem (by simp)
  noParen hhead := h.notMem (b := 40) (by simp) (mem_of_mem_head? hhead)

theorem FieldName.notMem_text {name val : Bytes} (h : FieldName name)
    (hval : ∀ b ∈ val, b = 34 ∨ Plain b) (hb : b = 32 ∨ b = interpSeparator) :
    b ∉ name ++ 61 :: val := by
  rw [mem_append, mem_cons]
  rintro (hmem | hmem | hmem)
  · exact h.notMem (hb.imp_right Or.inl) hmem
  · subst hmem
    exact absurd hb (by decide)
  · rcases hb with rfl | rfl <;> rcases hval _ hmem with hq | ⟨-, hlow, -⟩
    · exact absurd hq (by decide)
    · exact absurd hlow (by decide)
    · exact absurd hq (by decide)
    · exact absurd hlow (by decide)

theorem mem_quoted (hb : b ∈ (34 :: (bs ++ [34]) : Bytes)) : b = 34 ∨ b ∈ bs := by
  simp only [mem_cons, mem_append, not_mem_nil, or_false] at hb
  tauto

theorem unambiguous_quoted_iff {name : Bytes} (bs : Bytes) :
    Unambiguous name (name ++ 61 :: 34 :: (bs ++ [34])) ↔ ∀ b ∈ bs, Plain b := by
  constructor
  · rintro ⟨body, h | h, hplain⟩
    · have hbody : 34 :: (bs ++ [34]) = body := by simpa using h
      exact absurd rfl (hplain 34 (hbody ▸ mem_cons_self)).1
    · simp_all
  · exact fun h => ⟨bs, .inr rfl, h⟩

section RoundTrip

variable (place : Place) (sign : CharSign) {name : Bytes} (hname : FieldName name) (value : CString)

include hname

/-- The encoded form is always read back. -/
theorem encoded_read_back {n : Nat} (h : valueNeedsEncoding sign value.bytes n = true) :
    place.ReadsBack (name ++ 61 :: encodeValue value.bytes n) name (value.bytes.take n) ∧
      Unambiguous name (name ++ 61 :: encodeValue value.bytes n) := by
  have hplain : ∀ b ∈ hexEncode (value.bytes.take n), Plain b := fun _ => plain_of_mem_hexEncode
  have hne : value.bytes.take n ≠ [] := by
    intro hnil
    rw [valueNeedsEncoding, hnil] at h
    cases h
  have hnul : 0 ∉ value.bytes.take n := fun h => value.nulFree (mem_of_mem_take h)
  refine ⟨?_, ⟨_, .inl rfl, hplain⟩⟩
  have htext {b : UInt8} (hb : b = 32 ∨ b = interpSeparator) :=
    hname.notMem_text (fun b hb => .inr (hplain b hb)) hb
  rw [encodeValue, place.readsBack_iff hname.ordinary (htext (by simp)) (htext (by simp)),
    chopPunctuation_hexEncode, printEscaped_hexEncode hne hnul]

theorem quoted_readsBack_iff (hplain : ∀ b ∈ value.bytes, Plain b) (v : Bytes) :
    place.ReadsBack (name ++ 61 :: 34 :: (value.bytes ++ [34])) name v ↔ value.bytes = v := by
  have hval : ∀ b ∈ (34 :: (value.bytes ++ [34]) : Bytes), b = 34 ∨ Plain b :=
    fun b hb => (mem_quoted hb).imp_right (hplain b)
  have hquote : 34 ∉ value.bytes := fun h => (hplain 34 h).1 rfl
  rw [place.readsBack_iff hname.ordinary (hname.notMem_text hval (by simp))
    (hname.notMem_text hval (by simp)), chopPunctuation_quoted, printEscaped_quoted hquote]

end RoundTrip

/-- **Read back exactly**: the text is read as one field with the first `vlen` bytes of the value, and
has nothing in it that would disturb the record, if and only if the encoded form is chosen, or `vlen`
is all of the value and no byte of it is above 0x7f. -/
theorem encodeNvString_read_back_iff (place : Place) (sign : CharSign) (name : Bytes)
    (value : CString) (vlen : Nat) (hname : FieldName name) (hvlen : vlen ≤ value.strlen) :
    (place.ReadsBack (encodeNvString sign name (some value) vlen) name
          (value.bytes.take (effectiveLength value vlen)) ∧
        Unambiguous name (encodeNvString sign name (some value) vlen)) ↔
      valueNeedsEncoding sign value.bytes (effectiveLength value vlen) = true ∨
        (effectiveLength value vlen = value.strlen ∧ ∀ b ∈ value.bytes, b < 128) := by
  have hlen : effectiveLength value vlen ≤ value.bytes.length := by
    rw [effectiveLength]
    split
    · exact Nat.le_refl _
    · exact hvlen
  rw [encodeNvString]
  by_cases henc : valueNeedsEncoding sign value.bytes (effectiveLength value vlen) = true
  · rw [if_pos henc]
    exact ⟨fun _ => .inl henc, fun _ => encoded_read_back place sign hname value henc⟩
  rw [if_neg henc, unambiguous_quoted_iff]
  constructor
  · rintro ⟨hread, hplain⟩
    have hwhole := (quoted_readsBack_iff place hname value hplain _).mp hread
    refine .inr ⟨?_, fun b hb => (hplain b hb).lt⟩
    have := congrArg List.length hwhole
    rw [length_take, Nat.min_eq_left hlen] at this
    exact this.symm
  · rintro (h | ⟨hall, hascii⟩)
    · exact absurd h henc
    rw [hall, CString.strlen] at henc ⊢
    rw [take_length]
    have hplain : ∀ b ∈ value.bytes, Plain b := by
      intro b hb
      refine (disturbs_eq_false_iff sign (hascii b hb)).mp ((Bool.not_eq_true _).mp ?_)
      intro hd
      refine henc ?_
      rw [valueNeedsEncoding, take_length, any_eq_true]
      exact ⟨b, hb, hd⟩
    exact ⟨(quoted_readsBack_iff place hname value hplain _).mpr rfl, hplain⟩

/-- The place after the type of a record. -/
def afterType : Place where
  pre := ascii "type=USER_CMD"
  post := ascii " res=success"
  noSeparator := by decide +kernel
  noBrace := by decide +kernel
  notFailed := by decide +kernel
  apart := .inr (.inl rfl)

/-- A value with a blank is encoded, and read back. -/
theorem read_back_blank :
    afterType.ReadsBack (encodeNvString .unsigned (ascii "cmd") (some (cstr (ascii "ls -l"))) 0)
        (ascii "cmd") (ascii "ls -l") ∧
      Unambiguous (ascii "cmd")
        (encodeNvString .unsigned (ascii "cmd") (some (cstr (ascii "ls -l"))) 0) :=
  (encodeNvString_read_back_iff afterType .unsigned (ascii "cmd") (cstr (ascii "ls -l")) 0
    ⟨by decide +kernel, by decide, by decide⟩ (by decide)).mpr (.inl (by decide))

/-- The first two bytes of `abc` are asked for, and all three are written. -/
theorem whole_value_read_back :
    encodeNvString .signed (ascii "cmd") (some (cstr (ascii "abc"))) 2 = ascii "cmd=\"abc\"" ∧
      ¬ afterType.ReadsBack (encodeNvString .signed (ascii "cmd") (some (cstr (ascii "abc"))) 2)
        (ascii "cmd") (ascii "ab") := by
  have hplain : ∀ b ∈ (cstr (ascii "abc")).bytes, Plain b := by
    have hbytes : (cstr (ascii "abc")).bytes = [97, 98, 99] := by decide
    intro b hb
    have : b = 97 ∨ b = 98 ∨ b = 99 := by simpa [hbytes] using hb
    rcases this with rfl | rfl | rfl <;> exact ⟨by decide, by decide, by decide⟩
  refine ⟨by decide, fun h => ?_⟩
  have := (quoted_readsBack_iff afterType ⟨by decide +kernel, by decide, by decide⟩
    (cstr (ascii "abc")) hplain _).mp h
  exact absurd this (by decide)

end LibAudit.Logging
