import LibAudit.Logging.Encode

/-!
# Keys of a record

The key of a rule is written into the records it causes like every untrusted value: quoted, or in
hexadecimal digits if there is a byte in it that would disturb the record.  One of these is the separator
between several keys.  `parse_up_record` takes such a key apart and makes a field of every component,
which it encodes again.

Only a key in digits is taken apart.  One in quotes is a single field, whatever is between the quotes, and
so is one that is empty.
-/

namespace LibAudit.Auparse

open Logging List

/-! ## How a key is written -/

/-- The value of a key field: a text in quotes, or the digits of a NUL free one. -/
inductive KeyValue where
  | quoted (text : Bytes) (plain : ∀ b ∈ text, b ≠ 34 ∧ b ≠ 32 ∧ b ≠ interpSeparator ∧ b ≠ 0)
  | hex (digits : Bytes) (isXDigit : ∀ d ∈ digits, isXDigit d = true) (even : 2 ∣ digits.length)
      (nulFree : 0 ∉ hexDecode digits)

namespace KeyValue

/-- As it stands in the record. -/
def text : KeyValue → Bytes
  | quoted text _ => 34 :: (text ++ [34])
  | hex digits _ _ _ => digits

/-- The keys that are presented. -/
def keys : KeyValue → List Bytes
  | quoted text _ => [text]
  | hex digits _ _ _ => if digits = [] then [[]] else words 1 (hexDecode digits)

end KeyValue

/-- In this place of a record, a text is read as fields named `key` that decode to the given keys, and
`parse_up_record` goes on behind it. -/
structure PresentsKeys (place : Place) (text : Bytes) (keys : List Bytes) : Prop where
  parses : parseUpRecord (place.record text) =
    ((place.before.word text).run (words 32 (rawPart place.post))).finish
  fields : ∃ vals : List Bytes, (place.before.word text).nv =
      place.before.nv ++ vals.map (⟨some (ascii "key"), ·⟩) ∧ vals.map printEscaped = keys

/-! ## Reading -/

/-- Outside of braces, a key is stored as one. -/
theorem Parser.word_key {p : Parser} (val : Bytes) (hp : p.failed = false) (hbraces : p.braces = none)
    (hval : chopPunctuation val = val) (hparen : val.head? ≠ some 40) :
    p.word (ascii "key" ++ 61 :: val) = p.storeKey val := by
  have hname : 61 ∉ ascii "key" := by decide
  have hequal : (ascii "key" ++ 61 :: val).contains 61 = true := by simp
  have hpair : pairOf (ascii "key" ++ 61 :: val) = some (ascii "key" ++ 61 :: val) := by
    have hmsg : (ascii "key" ++ 61 :: val).take 4 = ascii "key=" := rfl
    rw [pairOf, hmsg, if_neg (by decide)]
  have hsplit : splitPair (ascii "key" ++ 61 :: val) = (ascii "key", val) := by
    have hhead : (ascii "key").head? ≠ some 40 := by decide
    simp only [splitPair, takeWhile_append_cons hname, dropWhile_append_cons hname, drop_one, tail_cons,
      if_neg hhead, hval]
  rw [word, hp, if_neg Bool.false_ne_true, hbraces]
  show (if (ascii "key" ++ 61 :: val).contains 61 then p.pair _ else _) = _
  rw [if_pos hequal, pair, hpair]
  simp_all

theorem printEscaped_escape {key : Bytes} (hne : key ≠ []) (hnul : 0 ∉ key) :
    printEscaped (escape key) = key := by
  rw [escape]
  split
  · exact printEscaped_hexEncode hne hnul
  · rename_i hplain
    refine printEscaped_quoted fun hquote => hplain ?_
    exact any_eq_true.mpr ⟨34, hquote, rfl⟩

theorem chopPunctuation_digits {digits : Bytes} (h : ∀ d ∈ digits, isXDigit d = true) :
    chopPunctuation digits = digits := by
  cases hlast : digits.getLast? with
  | none =>
    rw [getLast?_eq_none_iff.mp hlast]
    rfl
  | some d =>
    refine chopPunctuation_of_last hlast fun hmem => ?_
    have hd := h d (mem_of_getLast? hlast)
    have hall : ∀ c ∈ ([58, 44, 39, 41] : Bytes), isXDigit c = false := by decide +kernel
    rw [hall d hmem] at hd
    cases hd

namespace KeyValue

variable (k : KeyValue)

theorem text_plain : (∀ b ∈ k.text, b ≠ 32 ∧ b ≠ interpSeparator) ∧ chopPunctuation k.text = k.text ∧
      k.text.head? ≠ some 40 := by
  cases k with
  | quoted text plain =>
    refine ⟨fun b hb => ?_, chopPunctuation_quoted text, nofun⟩
    rcases mem_quoted hb with rfl | hb
    · decide
    · exact ⟨(plain b hb).2.1, (plain b hb).2.2.1⟩
  | hex digits isXDigit' _ _ =>
    refine ⟨fun b hb => ⟨?_, ?_⟩, chopPunctuation_digits isXDigit', fun h => ?_⟩
    · rintro rfl
      cases (isXDigit' _ hb)
    · rintro rfl
      cases (isXDigit' _ hb)
    · cases (isXDigit' _ (mem_of_mem_head? h))

/-- The fields that are stored. -/
theorem nv_storeKey (p : Parser) :
    ∃ vals : List Bytes, (p.storeKey k.text).nv = p.nv ++ vals.map (⟨some (ascii "key"), ·⟩) ∧
      vals.map printEscaped = k.keys := by
  cases k with
  | quoted text plain =>
    refine ⟨[34 :: (text ++ [34])], rfl, ?_⟩
    rw [map_singleton, printEscaped_quoted fun h => (plain 34 h).1 rfl]
    rfl
  | hex digits isXDigit' even nulFree =>
    have hquote : digits.head? ≠ some 34 := fun h => nomatch isXDigit' _ (mem_of_mem_head? h)
    have hparen : digits.head? ≠ some 40 := fun h => nomatch isXDigit' _ (mem_of_mem_head? h)
    by_cases hnil : digits = []
    · subst hnil
      exact ⟨[[]], rfl, rfl⟩
    · have hlen : ¬ digits.length < 2 := by
        obtain ⟨n, hn⟩ := even
        have := length_pos_of_ne_nil hnil
        omega
      have hunescape : auUnescape digits = some (hexDecode digits) := by
        rw [auUnescape, if_neg hparen]
        show (if (digits.takeWhile isXDigit).length < 2 then none
          else some (untilNul (hexDecode (digits.takeWhile isXDigit)))) = _
        rw [takeWhile_eq_self_iff.mpr isXDigit', if_neg hlen, untilNul_of_notMem nulFree]
      refine ⟨(words 1 (hexDecode digits)).map escape, ?_, ?_⟩
      · rw [text, Parser.storeKey, if_neg hquote, hunescape, map_map]
        rfl
      · rw [keys, if_neg hnil, map_map]
        refine (map_congr_left fun w hw => ?_).trans (map_id _)
        obtain ⟨hne, hsub⟩ := of_mem_words hw
        exact printEscaped_escape hne fun h => nulFree (hsub h)

end KeyValue

/-- **The keys of a record**: what is presented for a key is the text in the quotes, or the components of
what the digits stand for. -/
theorem presentsKeys (place : Place) (k : KeyValue) :
    PresentsKeys place (ascii "key=" ++ k.text) k.keys := by
  obtain ⟨hplain, hchop, hparen⟩ := k.text_plain
  have htext : ascii "key=" ++ k.text = ascii "key" ++ 61 :: k.text := rfl
  have hname : ∀ b ∈ ascii "key=", b ≠ 32 ∧ b ≠ interpSeparator := by decide +kernel
  have hword := Parser.word_key k.text place.notFailed place.noBrace hchop hparen
  refine ⟨place.parseUpRecord_record nofun (fun h => ?_) fun h => ?_, ?_⟩
  · rcases mem_append.mp h with h | h
    · exact (hname 32 h).1 rfl
    · exact (hplain 32 h).1 rfl
  · rcases mem_append.mp h with h | h
    · exact (hname _ h).2 rfl
    · exact (hplain _ h).2 rfl
  · rw [htext, Place.before, hword]
    exact k.nv_storeKey _

/-- An empty key is presented, though it has no component. -/
theorem empty_key_presented :
    (parseUpRecord (ascii "type=SYSCALL key=\"\"")).nv.filter (·.name = some (ascii "key")) =
        [⟨some (ascii "key"), ascii "\"\""⟩] ∧
      ¬ PresentsKeys afterType (ascii "key=\"\"") (words 1 []) := by
  refine ⟨by decide +kernel, fun h => ?_⟩
  obtain ⟨vals, hnv, hvals⟩ := h.fields
  rw [map_eq_nil_iff.mp hvals] at hnv
  exact absurd hnv (by decide +kernel)

end LibAudit.Auparse
