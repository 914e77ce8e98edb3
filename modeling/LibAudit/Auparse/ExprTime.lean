import LibAudit.Auparse.ExprValue

/-!
# Time stamps in search expressions

The manual gives the value of `\timestamp` and `\timestamp_ex` as `ts:seconds.milli`, with or without a
serial number behind it (`TimeValue`).  The parser reads the value twice.  `sscanf` looks for the numbers
and stops where it finds no more; `strspn` then passes over all characters that may belong to a time
stamp, whether they were read or not.  What the two take together is `TakenAt`: the seconds, the
milliseconds, and any characters of that set.  Blanks and signs, which `sscanf` also allows, are not in
the set, so the parser goes on in front of them and does not like what it finds.

A serial number that `sscanf` does not find is left as it was in memory.
-/

namespace LibAudit.Auparse

open Records List Option

/-! ## What the manual says -/

/-- A time stamp in decimal numbers. -/
structure TimeValue where
  sec : Bytes
  milli : Bytes
  serial : Option Bytes
  isDecimal_sec : IsDecimal sec
  isDecimal_milli : IsDecimal milli
  isDecimal_serial : ∀ n ∈ serial, IsDecimal n

namespace TimeValue

/-- The serial number, with the colon in front of it. -/
def tail (t : TimeValue) : Bytes := t.serial.elim [] (58 :: ·)

/-- How it is written. -/
def text (t : TimeValue) : Bytes := ascii "ts:" ++ t.sec ++ 46 :: t.milli ++ t.tail

/-- It is the value of a comparison, at the beginning of `s`. -/
def StandsAt (t : TimeValue) (s : Bytes) : Prop :=
  ∃ rest q, s.dropWhile isBlank = t.text ++ rest ∧ lex rest = .ok q ∧ q.token.follows = true

/-- The time of an event against it.  The serial number counts for `\timestamp_ex`, if it is given. -/
def compare (t : TimeValue) (ex : Bool) (e : EventId) : Ordering :=
  ((Ord.compare e.sec.toInt (ofDigits t.sec : Int)).then
    (Ord.compare e.milli.toNat (ofDigits t.milli))).then
    (if ex then t.serial.elim .eq fun n => Ord.compare e.serial.toNat (ofDigits n) else .eq)

end TimeValue

/-- `\timestamp`, or `\timestamp_ex` if `ex`. -/
def timeField (ex : Bool) : FieldRef := .virtual (if ex then .timestampEx else .timestamp)

/-- What is documented, of the text `s` behind the operator: the time stamps of the manual are accepted
and nothing else, and the comparison is that of the numbers, whatever was in memory. -/
structure AsDocumented (ex : Bool) (s : Bytes) : Prop where
  accepts : ∀ env op p, p.At op s →
    ((accepted env (timeField ex) p).isSome ↔ ∃ t : TimeValue, t.StandsAt s)
  compares : ∀ env op p, p.At op s → ∀ t : TimeValue, t.StandsAt s →
    ∀ x, accepted env (timeField ex) p = some x →
      ∀ O e r, (exprEval O e x r).map Prod.fst = some (op.holds (t.compare ex e))

/-! ## What the parser takes -/

/-- The parser takes a time stamp at the beginning of `s`, with more characters behind it. -/
structure TakenAt (sec milli more s : Bytes) : Prop where
  isDecimal_sec : IsDecimal sec
  isDecimal_milli : IsDecimal milli
  chars : ∀ c ∈ more, isTimestampChar c = true
  stops : Stops more
  text : ∃ rest q, s.dropWhile isBlank = ascii "ts:" ++ (sec ++ 46 :: (milli ++ (more ++ rest))) ∧
    lex rest = .ok q ∧ q.token.follows = true

/-- A character of a time stamp or in front of a number, or one that only `sscanf` takes for a blank. -/
def isNumeric (c : UInt8) : Bool :=
  isTimestampChar c || c == 45 || c == 43 || (decide (11 ≤ c) && decide (c ≤ 13))

theorem numeric_cases : ∀ c : UInt8, isNumeric c = true →
    isBlank c = false ∧ c ∉ [33, 34, 47, 38, 40, 41, 60, 61, 62, 92, 124, 105, 114] :=
  forall_byte (by decide +kernel)

variable {q : Parsing}

/-- No token that may follow a comparison starts with such a character. -/
theorem not_follows_of_isNumeric {c : UInt8} (hc : isNumeric c = true) {s : Bytes}
    (h : lex (c :: s) = .ok q) : q.token.follows = false := by
  obtain ⟨hblank, hne⟩ := numeric_cases c hc
  have hskip : (c :: s).dropWhile isBlank = c :: s := dropWhile_cons_of_neg (by simp [hblank])
  simp only [mem_cons, not_mem_nil, or_false, not_or] at hne
  have htoken : lexToken (c :: s) =
      if isUnquoted c then .ok (.string (c :: s.takeWhile isUnquoted), s.dropWhile isUnquoted)
      else .ok (.unknown, s) := by
    simp [lexToken, hne]
  obtain ⟨hread, -⟩ := lex_eq_ok_iff.mp h
  rw [hskip, htoken] at hread
  split at hread
  · rw [← (Prod.mk.inj (Except.ok.inj hread)).1]
    rfl
  · rw [← (Prod.mk.inj (Except.ok.inj hread)).1]
    rfl

theorem head_of_follows {s : Bytes} (h : lex s = .ok q) (hq : q.token.follows = true) :
    ∀ c, s.head? = some c → isTimestampChar c = false := by
  intro c hc
  cases s with
  | nil => cases hc
  | cons d s =>
    obtain rfl := some.inj hc
    refine Bool.eq_false_iff.mpr fun htime => ?_
    rw [not_follows_of_isNumeric (by simp [isNumeric, htime]) h] at hq
    cases hq

theorem not_follows_of_padded {s : Bytes} (hs : Padded s) (h : lex s = .ok q) :
    q.token.follows = false := by
  obtain ⟨w, c, t, rfl, hw, hc⟩ := hs.split
  have hnum : isNumeric c = true := by
    rcases hc with rfl | rfl | hdigit
    · rfl
    · rfl
    · simp [isNumeric, timestampChar_of_isDigit c hdigit]
  clear hs
  induction w with
  | nil => exact not_follows_of_isNumeric hnum h
  | cons b w ih =>
    have hb := hw b mem_cons_self
    by_cases hblank : isBlank b = true
    · refine ih ?_ fun d hd => hw d (mem_cons_of_mem b hd)
      have hskip : (b :: (w ++ c :: t)).dropWhile isBlank = (w ++ c :: t).dropWhile isBlank :=
        dropWhile_cons_of_pos hblank
      rw [← h, cons_append, lex, lex]
      simp only [hskip]
    · have hnumb : ∀ c, isSpace c = true → isBlank c = false → isNumeric c = true :=
        forall_byte (by decide +kernel)
      exact not_follows_of_isNumeric (hnumb b hb (by simpa using hblank)) h

/-! ## What is read -/

theorem scanChar_eq_some {c : UInt8} {s t : Bytes} (h : scanChar c s = some t) : s = c :: t := by
  rw [scanChar] at h
  split at h
  · rename_i hc
    cases s with
    | nil => cases hc
    | cons d s =>
      rw [some.inj hc, ← some.inj h]
      rfl
  · cases h

theorem digit_of_timestampChar {c : UInt8} (h : isTimestampChar c = false) : isDigit c = false :=
  Bool.eq_false_iff.mpr fun hd => by
    rw [timestampChar_of_isDigit c hd] at h
    cases h

theorem head_of_padded {s : Bytes} (hs : Padded s) :
    ∀ c, s.head? = some c → isTimestampChar c = false := by
  obtain ⟨w, d, t, rfl, hw, hd⟩ := hs.split
  intro c hc
  cases w with
  | nil =>
    obtain rfl := some.inj hc
    rcases hd with rfl | rfl | hd
    · rfl
    · rfl
    · rw [hs.head d rfl] at hd
      cases hd
  | cons b w =>
    obtain rfl := some.inj hc
    have hb : ∀ c, isSpace c = true → isTimestampChar c = false := forall_byte (by decide +kernel)
    exact hb b (hw b mem_cons_self)

/-- A time stamp that is scanned, and behind which the parser can go on, is made of decimal numbers. -/
theorem exists_of_scanTimestamp {start : Bytes} {n : Int64} {m : UInt32} {t : Bytes}
    (h : scanTimestamp start = some (n, m, t)) (hlex : lex (start.dropWhile isTimestampChar) = .ok q)
    (hq : q.token.follows = true) :
    ∃ sec milli, start = ascii "ts:" ++ (sec ++ 46 :: (milli ++ t)) ∧ IsDecimal sec ∧
      IsDecimal milli ∧ Stops t := by
  rw [scanTimestamp] at h
  obtain ⟨s₁, h₁, h⟩ := bind_eq_some_iff.mp h
  obtain ⟨s₂, h₂, h⟩ := bind_eq_some_iff.mp h
  obtain ⟨s₃, h₃, h⟩ := bind_eq_some_iff.mp h
  obtain ⟨⟨n', s₄⟩, hsec, h⟩ := bind_eq_some_iff.mp h
  obtain ⟨s₅, h₅, h⟩ := bind_eq_some_iff.mp h
  obtain ⟨⟨m', t'⟩, hmilli, h⟩ := bind_eq_some_iff.mp h
  obtain rfl : t' = t := by
    cases h
    rfl
  have hstart : start = ascii "ts:" ++ s₃ := by
    rw [scanChar_eq_some h₁, scanChar_eq_some h₂, scanChar_eq_some h₃]
    rfl
  have hts : ∀ c ∈ ascii "ts:", isTimestampChar c = true := by decide +kernel
  rcases scanSigned_cases hsec with ⟨sec, rfl, hdec, hstops⟩ | hpadded
  · obtain rfl := scanChar_eq_some h₅
    rcases scanUnsigned_cases hmilli with ⟨milli, rfl, hdec', hstops'⟩ | hpadded
    · exact ⟨sec, milli, hstart, hdec, hdec', hstops'⟩
    · have hsplit : start = (ascii "ts:" ++ (sec ++ [46])) ++ s₅ := by simp [hstart]
      rw [hsplit, dropWhile_append_stop (timestampChar_sec hdec) (head_of_padded hpadded)] at hlex
      rw [not_follows_of_padded hpadded hlex] at hq
      cases hq
  · rw [hstart, dropWhile_append_stop hts (head_of_padded hpadded)] at hlex
    rw [not_follows_of_padded hpadded hlex] at hq
    cases hq

/-! ## What is accepted -/

namespace TakenAt

variable {sec milli more s : Bytes}

/-- What is taken does not go on with a digit. -/
theorem stops_append {rest : Bytes} (hmore : Stops more) (h : lex rest = .ok q)
    (hq : q.token.follows = true) : Stops (more ++ rest) := by
  intro c hc
  cases more with
  | nil => exact digit_of_timestampChar (head_of_follows h hq c hc)
  | cons d more => exact hmore c hc

/-- There is one way only to take it. -/
theorem unique {sec' milli' more' : Bytes} (h : TakenAt sec milli more s)
    (h' : TakenAt sec' milli' more' s) : sec = sec' ∧ milli = milli' ∧ more = more' := by
  obtain ⟨rest, q, htext, hlex, hq⟩ := h.text
  obtain ⟨rest', q', htext', hlex', hq'⟩ := h'.text
  obtain ⟨hsec, hmilli⟩ := append_stop_inj (append_cancel_left (htext.symm.trans htext'))
    h.isDecimal_sec.digits h'.isDecimal_sec.digits (stops_cons rfl _) (stops_cons rfl _)
  obtain ⟨hmilli, hmore⟩ := append_stop_inj (List.cons.inj hmilli).2 h.isDecimal_milli.digits
    h'.isDecimal_milli.digits (stops_append h.stops hlex hq) (stops_append h'.stops hlex' hq')
  exact ⟨hsec, hmilli, (append_stop_inj hmore h.chars h'.chars (head_of_follows hlex hq)
    (head_of_follows hlex' hq')).1⟩

end TakenAt

section Accepted

variable {env : ParseEnv} {ex : Bool} {op : ValueOp} {s : Bytes} {p : Parsing}

theorem parseValue_timeField (v : Bytes) (p : Parsing) :
    parseValue env v p (timeField ex) = parseTimestampValue env ex p := by
  cases ex <;> rfl

/-- **What is accepted** as the value of a time stamp. -/
theorem accepted_isSome_iff (hp : p.At op s) :
    (accepted env (timeField ex) p).isSome ↔ ∃ sec milli more, TakenAt sec milli more s := by
  rw [isSome_iff_exists]
  constructor
  · rintro ⟨x, hx⟩
    obtain ⟨p₂, v, c, src, q, hlex, -, hc, hq, hfollows, -⟩ := (accepted_eq_some_iff hp).mp hx
    rw [parseValue_timeField, parseTimestampValue] at hc
    split at hc
    · cases hc
    · rename_i n m t hscan
      cases hc
      obtain ⟨sec, milli, hstart, hsec, hmilli, hstops⟩ := exists_of_scanTimestamp hscan hq hfollows
      have hsplit : t.takeWhile isTimestampChar ++ t.dropWhile isTimestampChar = t :=
        takeWhile_append_dropWhile
      rw [hstart, dropWhile_taken hsec hmilli] at hq
      refine ⟨sec, milli, t.takeWhile isTimestampChar, hsec, hmilli,
        fun c hc => mem_takeWhile_imp hc, fun c hc => ?_, t.dropWhile isTimestampChar, q, ?_, hq,
        hfollows⟩
      · rw [← hsplit] at hstops
        exact hstops c (by rw [head?_append, hc]; rfl)
      · rw [hsplit, ← hstart]
        exact (lex_eq_ok_iff.mp hlex).2.1.symm
  · rintro ⟨sec, milli, more, h⟩
    obtain ⟨rest, q, htext, hlex, hq⟩ := h.text
    obtain ⟨p₂, hlex₂, htoken, hstart⟩ := lex_time htext
    have hdrop : p₂.start.dropWhile isTimestampChar = rest := by
      rw [hstart, dropWhile_taken h.isDecimal_sec h.isDecimal_milli,
        dropWhile_append_stop h.chars (head_of_follows hlex hq)]
    have hvalue : ∃ c, parseTimestampValue env ex p₂ = .ok (c, rest) := by
      rw [parseTimestampValue, hdrop, hstart, scanTimestamp_taken h.isDecimal_sec h.isDecimal_milli
        (TakenAt.stops_append h.stops hlex hq)]
      exact ⟨_, rfl⟩
    obtain ⟨c, hc⟩ := hvalue
    exact ⟨_, (accepted_eq_some_iff hp).mpr ⟨p₂, _, c, rest, q, hlex₂, htoken,
      (parseValue_timeField _ _).trans hc, hlex, hq, rfl⟩⟩

end Accepted

/-! ## Time stamps of the manual -/

namespace TimeValue

variable {t : TimeValue} {s : Bytes}

theorem text_append (t : TimeValue) (rest : Bytes) :
    t.text ++ rest = ascii "ts:" ++ (t.sec ++ 46 :: (t.milli ++ (t.tail ++ rest))) := by
  simp [text]

theorem takenAt (h : t.StandsAt s) : TakenAt t.sec t.milli t.tail s := by
  obtain ⟨rest, q, htext, hlex, hq⟩ := h
  refine ⟨t.isDecimal_sec, t.isDecimal_milli, ?_, ?_, rest, q, t.text_append rest ▸ htext, hlex, hq⟩
  · intro c hc
    rw [tail] at hc
    cases hserial : t.serial with
    | none =>
      rw [hserial] at hc
      cases hc
    | some n =>
      rw [hserial] at hc
      rcases mem_cons.mp hc with rfl | hc
      · rfl
      · exact timestampChar_of_isDecimal (t.isDecimal_serial n hserial) c hc
  · intro c hc
    rw [tail] at hc
    cases hserial : t.serial with
    | none =>
      rw [hserial] at hc
      cases hc
    | some n =>
      rw [hserial] at hc
      rw [← some.inj hc]
      rfl

theorem standsAt_of_takenAt (h : TakenAt t.sec t.milli t.tail s) : t.StandsAt s := by
  obtain ⟨rest, q, htext, hlex, hq⟩ := h.text
  exact ⟨rest, q, t.text_append rest ▸ htext, hlex, hq⟩

/-- The text decides what the numbers are. -/
theorem ext_of_tail {t' : TimeValue} (hsec : t.sec = t'.sec) (hmilli : t.milli = t'.milli)
    (htail : t.tail = t'.tail) : t = t' := by
  obtain ⟨sec, milli, serial, _, _, _⟩ := t
  obtain ⟨sec', milli', serial', _, _, _⟩ := t'
  cases hsec
  cases hmilli
  have hserial : serial = serial' := by
    cases serial with
    | none =>
      cases serial' with
      | none => rfl
      | some n => cases htail
    | some n =>
      cases serial' with
      | none => cases htail
      | some n' => rw [(List.cons.inj htail).2]
  cases hserial
  rfl

/-- The numbers fit: into 64 bits with a sign, and into 32 bits.  For `\timestamp_ex` all three are there. -/
structure Fits (t : TimeValue) (ex : Bool) : Prop where
  sec : ofDigits t.sec < 2 ^ 63
  milli : ofDigits t.milli < 2 ^ 32
  serial : ex = true → ∃ n, t.serial = some n ∧ ofDigits n < 2 ^ 32

/-- The seconds that are kept. -/
def secKept (t : TimeValue) : Int64 := Int64.ofNat (min (ofDigits t.sec) (2 ^ 63 - 1))

/-- A number in 32 bits that is kept. -/
def kept (n : Bytes) : UInt32 := (UInt64.ofNat (min (ofDigits n) (2 ^ 64 - 1))).toUInt32

/-- The value that is made of a time stamp, with `junk` in memory. -/
def constant (t : TimeValue) (ex : Bool) (junk : UInt32) : Constant :=
  if ex then .timestampEx t.secKept (kept t.milli) (t.serial.elim junk kept)
  else .timestamp t.secKept (kept t.milli)

theorem toInt_secKept (t : TimeValue) (h : ofDigits t.sec < 2 ^ 63) :
    t.secKept.toInt = (ofDigits t.sec : Int) := by
  rw [secKept, Nat.min_eq_left (by omega), Int64.toInt_ofNat_of_lt h]

theorem toNat_kept {n : Bytes} (h : ofDigits n < 2 ^ 32) : (kept n).toNat = ofDigits n := by
  rw [kept, Nat.min_eq_left (by omega), UInt64.toNat_toUInt32, UInt64.toNat_ofNat']
  omega

/-- The value that the parser makes. -/
theorem accepted_eq (h : t.StandsAt s) {env : ParseEnv} {ex : Bool} {op : ValueOp} {p : Parsing}
    (hp : p.At op s) :
    accepted env (timeField ex) p =
      some (.value op (t.constant ex (env.junk (s.dropWhile isBlank)))) := by
  have htaken := takenAt h
  obtain ⟨rest, q, htext, hlex, hq⟩ := htaken.text
  obtain ⟨p₂, hlex₂, htoken, hstart⟩ := lex_time htext
  have hhead := head_of_follows hlex hq
  have hdrop : p₂.start.dropWhile isTimestampChar = rest := by
    rw [hstart, dropWhile_taken t.isDecimal_sec t.isDecimal_milli,
      dropWhile_append_stop htaken.chars hhead]
  have hserial : ((((scanChar 58 (t.tail ++ rest)).bind (scanUnsigned 10 none)).map
      (·.1.toUInt32)).getD (env.junk p₂.start)) = t.serial.elim (env.junk p₂.start) kept := by
    rw [tail]
    cases hn : t.serial with
    | none =>
      have hcolon : rest.head? ≠ some 58 := fun h => by
        have := hhead 58 h
        cases this
      simp [scanChar, hcolon]
    | some n =>
      have hstops : Stops rest := fun c hc => digit_of_timestampChar (hhead c hc)
      have hscan := (t.isDecimal_serial n hn).scanUnsigned_eq hstops
      simp [scanChar, hscan, kept]
  refine (accepted_eq_some_iff hp).mpr ⟨p₂, _, _, rest, q, hlex₂, htoken, ?_, hlex, hq, rfl⟩
  rw [parseValue_timeField, parseTimestampValue, hdrop]
  conv_lhs => rw [hstart, scanTimestamp_taken t.isDecimal_sec t.isDecimal_milli
    (TakenAt.stops_append htaken.stops hlex hq)]
  dsimp only
  rw [← hstart, hserial, htext, ← hstart]
  cases ex <;> rfl

end TimeValue

/-! ## Comparing -/

/-- The comparison that is evaluated, with the numbers that are kept. -/
def comparesKept (t : TimeValue) (ex : Bool) (junk : UInt32) (e : EventId) : Ordering :=
  (compareTime e t.secKept (TimeValue.kept t.milli)).then
    (if ex then compare e.serial (t.serial.elim junk TimeValue.kept).toUInt64 else .eq)

section Eval

variable (t : TimeValue) (ex : Bool) (junk : UInt32)

theorem exprEval_constant (op : ValueOp) (O : Oracle) (e : EventId) (r : ParsedRecord) :
    (exprEval O e (.value op (t.constant ex junk)) r).map Prod.fst =
      some (op.holds (comparesKept t ex junk e)) := by
  cases ex with
  | false => simp [TimeValue.constant, exprEval, comparesKept, Ordering.then_eq]
  | true => simp [TimeValue.constant, exprEval, comparesKept]

/-- Numbers that fit are compared as they are. -/
theorem comparesKept_of_fits (h : t.Fits ex) (e : EventId) :
    comparesKept t ex junk e = t.compare ex e := by
  rw [comparesKept, TimeValue.compare, compareTime, compare_toInt_int64, t.toInt_secKept h.sec,
    compare_toNat_uint32, TimeValue.toNat_kept h.milli]
  cases ex with
  | false => rfl
  | true =>
    obtain ⟨n, hn, hlt⟩ := h.serial rfl
    simp only [hn, if_true, elim_some, compare_toNat_uint64, UInt32.toNat_toUInt64,
      TimeValue.toNat_kept hlt]

/-- The event that has exactly the numbers that are kept. -/
def keptEvent : EventId :=
  ⟨t.secKept, TimeValue.kept t.milli, (t.serial.elim junk TimeValue.kept).toUInt64, none⟩

theorem comparesKept_keptEvent : comparesKept t ex junk (keptEvent t junk) = .eq := by
  cases ex <;> simp [comparesKept, keptEvent, compareTime]

/-- Numbers that are not compared as they are make a difference for some event. -/
theorem fits_of_comparesKept
    (h : ∀ e, (comparesKept t ex junk e).isEq = (t.compare ex e).isEq) : t.Fits ex := by
  have hkept := h (keptEvent t junk)
  rw [comparesKept_keptEvent] at hkept
  have heq : t.compare ex (keptEvent t junk) = .eq := by simpa using hkept.symm
  rw [TimeValue.compare, Ordering.then_eq_eq, Ordering.then_eq_eq, compare_eq_iff_eq,
    compare_eq_iff_eq] at heq
  obtain ⟨⟨hsec, hmilli⟩, hserial⟩ := heq
  have hsec' : t.secKept.toInt = (ofDigits t.sec : Int) := hsec
  have hmilli' : (TimeValue.kept t.milli).toNat = ofDigits t.milli := hmilli
  refine ⟨?_, ?_, ?_⟩
  · have := t.secKept.toInt_lt
    omega
  · have := (TimeValue.kept t.milli).toNat_lt
    omega
  · rintro rfl
    cases hn : t.serial with
    | some n =>
      rw [hn] at hserial
      have hserial' : (keptEvent t junk).serial.toNat = ofDigits n := compare_eq_iff_eq.mp hserial
      refine ⟨n, rfl, ?_⟩
      rw [← hserial', keptEvent, hn, UInt32.toNat_toUInt64]
      exact UInt32.toNat_lt _
    | none =>
      -- The serial number decides, though the value does not have one.
      have hother := h { keptEvent t junk with serial := junk.toUInt64 + 1 }
      simp [comparesKept, TimeValue.compare, compareTime, keptEvent, hn, hsec', hmilli'] at hother

end Eval

/-- **Time stamps are as documented** if and only if every value that is taken is a time stamp of the
manual with numbers that fit, and for `\timestamp_ex` has a serial number. -/
theorem asDocumented_iff (ex : Bool) (s : Bytes) : AsDocumented ex s ↔
      ∀ sec milli more, TakenAt sec milli more s →
        ∃ t : TimeValue, t.sec = sec ∧ t.milli = milli ∧ t.tail = more ∧ t.Fits ex := by
  constructor
  · intro h sec milli more htaken
    let env : ParseEnv := ⟨fun _ => none, fun _ => 0⟩
    have hsome : (accepted env (timeField ex) _).isSome :=
      (accepted_isSome_iff (at_eq s)).mpr ⟨sec, milli, more, htaken⟩
    obtain ⟨t, ht⟩ := (h.accepts env .eq _ (at_eq s)).mp hsome
    obtain ⟨hsec, hmilli, hmore⟩ := (TimeValue.takenAt ht).unique htaken
    refine ⟨t, hsec, hmilli, hmore, fits_of_comparesKept t ex 0 fun e => ?_⟩
    let O : Oracle := ⟨fun _ _ _ => none, fun _ _ => false⟩
    have heval := h.compares env .eq _ (at_eq s) t ht _ (TimeValue.accepted_eq ht (at_eq s)) O e
      ⟨[], 0, [], none⟩
    rw [exprEval_constant] at heval
    exact some.inj heval
  · intro h
    refine ⟨fun env op p hp => ?_, fun env op p hp t ht x hx O e r => ?_⟩
    · rw [accepted_isSome_iff hp]
      constructor
      · rintro ⟨sec, milli, more, htaken⟩
        obtain ⟨t, rfl, rfl, rfl, -⟩ := h sec milli more htaken
        exact ⟨t, TimeValue.standsAt_of_takenAt htaken⟩
      · rintro ⟨t, ht⟩
        exact ⟨_, _, _, TimeValue.takenAt ht⟩
    · obtain ⟨t', hsec, hmilli, htail, hfits⟩ := h _ _ _ (TimeValue.takenAt ht)
      obtain rfl : t' = t := TimeValue.ext_of_tail hsec hmilli htail
      rw [TimeValue.accepted_eq ht hp, some.injEq] at hx
      rw [← hx, exprEval_constant, comparesKept_of_fits t' ex _ hfits]

/-- Without a serial number, a comparison of `\timestamp_ex` is accepted, and what was in memory decides
it. -/
theorem serial_from_memory : let p := tokenAt .eof [] (ascii "== ts:5.6")
    let O : Oracle := ⟨fun _ _ _ => none, fun _ _ => false⟩
    let holds := fun junk : UInt32 =>
      (accepted ⟨fun _ => none, fun _ => junk⟩ (timeField true) p).bind fun x =>
        (exprEval O ⟨5, 6, 7, none⟩ x ⟨[], 0, [], none⟩).map Prod.fst
    holds 7 = some true ∧ holds 8 = some false ∧ ¬ AsDocumented true (ascii " ts:5.6") := by
  intro p O holds
  have hp : p.At .eq (ascii " ts:5.6") := at_eq _
  have htrue : holds 7 = some true := by decide +kernel
  have hfalse : holds 8 = some false := by decide +kernel
  refine ⟨htrue, hfalse, fun h => ?_⟩
  have ht : ∃ t : TimeValue, t.StandsAt (ascii " ts:5.6") :=
    (h.accepts ⟨fun _ => none, fun _ => 7⟩ .eq p hp).mp (by decide +kernel)
  obtain ⟨t, ht⟩ := ht
  have hsame : holds 7 = holds 8 := by
    show Option.bind _ _ = Option.bind _ _
    rw [TimeValue.accepted_eq ht hp, TimeValue.accepted_eq ht hp, bind_some, bind_some,
      h.compares ⟨fun _ => none, fun _ => 7⟩ .eq p hp t ht _ (TimeValue.accepted_eq ht hp),
      h.compares ⟨fun _ => none, fun _ => 8⟩ .eq p hp t ht _ (TimeValue.accepted_eq ht hp)]
  rw [htrue, hfalse] at hsame
  cases hsame

end LibAudit.Auparse
