import LibAudit.Auparse.ExprParse
import LibAudit.Lib.Ensures

/-!
# Writing a search expression and parsing it

Every expression that the grammar has is written as a text: names of fields and strings between
quotes, operands that are not comparisons in parentheses.  What `expr_parse` makes of such a text is
this expression (`textRead`), if no string is so long that its length is not an `int`.

A parser is described by the texts it reads: `Reads` says what it makes of a text, whatever follows.
From operands that are read, `chain_reads` goes to operands between operators, and this is also how
texts without parentheses are read.
-/

namespace LibAudit.Auparse

open Tables List Option

/-! ## Texts -/

/-- A string between delimiters, with escapes. -/
def delimit (d : UInt8) (s : Bytes) : Bytes :=
  d :: (s.flatMap fun c => if c = 92 ∨ c = d then [92, c] else [c]) ++ [d]

/-- A string in quotes. -/
def quote (s : Bytes) : Bytes := delimit 34 s

def FieldId.text : FieldId → Bytes
  | .timestamp => ascii "timestamp"
  | .recordType => ascii "record_type"
  | .timestampEx => ascii "timestamp_ex"

def FieldRef.text : FieldRef → Bytes
  | .name s => quote s
  | .virtual id => 92 :: id.text

def ValueOp.text : ValueOp → Bytes
  | .eq => ascii "=="
  | .ne => ascii "!=="
  | .lt => ascii "<"
  | .le => ascii "<="
  | .gt => ascii ">"
  | .ge => ascii ">="

/-- The seconds and milliseconds of a time stamp. -/
def timeText (sec : Int64) (milli : UInt32) : Bytes :=
  ascii "ts:" ++ printNat 10 sec.toInt.toNat ++ 46 :: printNat 10 milli.toNat

/-- The field of a comparison by value. -/
def Constant.field : Constant → FieldRef
  | .unsigned name _ => .name name
  | .timestamp _ _ => .virtual .timestamp
  | .timestampEx _ _ _ => .virtual .timestampEx
  | .recordType _ => .virtual .recordType

/-- The value it is compared with. -/
def Constant.text : Constant → Bytes
  | .unsigned _ val => printNat 10 val.toNat
  | .timestamp sec milli => timeText sec milli
  | .timestampEx sec milli serial => timeText sec milli ++ 58 :: printNat 10 serial.toNat
  | .recordType type => printNat 10 type.toNat

/-- A comparison. -/
def comparison (field : FieldRef) (op value : Bytes) : Bytes :=
  field.text ++ 32 :: (op ++ 32 :: value)

namespace Expr

/-- Made of other expressions. -/
def isCompound : Expr → Bool
  | not _ | and _ _ | or _ _ => true
  | _ => false

/-- As an operand, an expression that is no comparison is written in parentheses. -/
def asOperand (e : Expr) (text : Bytes) : Bytes :=
  if e.isCompound then 40 :: (text ++ [41]) else text

/-- The expression as a text. -/
def text : Expr → Bytes
  | not e => 33 :: e.asOperand e.text
  | and a b => a.asOperand a.text ++ ascii " && " ++ b.asOperand b.text
  | or a b => a.asOperand a.text ++ ascii " || " ++ b.asOperand b.text
  | raw ne field v => comparison field (ascii (if ne then "r!=" else "r=")) (quote v)
  | interpreted ne field v => comparison field (ascii (if ne then "i!=" else "i=")) (quote v)
  | value op c => comparison c.field op.text c.text
  | fieldExists _ => []
  | regexp re => ascii "\\regexp " ++ delimit 47 re

end Expr

/-! ## What can be written -/

/-- Something a string of the C language can hold. -/
abbrev NulFree (s : Bytes) : Prop := 0 ∉ s

def FieldRef.Denotable : FieldRef → Prop
  | .name s => NulFree s
  | .virtual _ => True

/-- The value is one the field can have, and a time stamp is not negative. -/
def Constant.Denotable : Constant → Prop
  | .unsigned name _ => name ∈ idFields
  | .timestamp sec _ => 0 ≤ sec.toInt
  | .timestampEx sec _ _ => 0 ≤ sec.toInt
  | .recordType type => 0 ≤ type ∧ type < 2 ^ 31

namespace Expr

variable (env : ParseEnv)

/-- The grammar has this expression. -/
def Denotable : Expr → Prop
  | not e => Denotable e
  | and a b => Denotable a ∧ Denotable b
  | or a b => Denotable a ∧ Denotable b
  | raw _ field v => field.Denotable ∧ NulFree v
  | interpreted _ field v => field.Denotable ∧ NulFree v
  | value _ c => c.Denotable
  | fieldExists _ => False
  | regexp re => NulFree re ∧ env.regcomp re = none

/-- No name or string is too long for a token. -/
def Fits : Expr → Prop
  | not e => Fits e
  | and a b => Fits a ∧ Fits b
  | or a b => Fits a ∧ Fits b
  | raw _ field v => field.text.length ≤ intMax ∧ (quote v).length ≤ intMax
  | interpreted _ field v => field.text.length ≤ intMax ∧ (quote v).length ≤ intMax
  | value _ _ => True
  | fieldExists _ => True
  | regexp re => (delimit 47 re).length ≤ intMax

end Expr

instance : ∀ field : FieldRef, Decidable field.Denotable
  | .name s => inferInstanceAs (Decidable (NulFree s))
  | .virtual _ => isTrue trivial

instance : ∀ c : Constant, Decidable c.Denotable
  | .unsigned name _ => inferInstanceAs (Decidable (name ∈ idFields))
  | .timestamp sec _ | .timestampEx sec _ _ => inferInstanceAs (Decidable (0 ≤ sec.toInt))
  | .recordType type => inferInstanceAs (Decidable (0 ≤ type ∧ type < 2 ^ 31))

instance Expr.decidableDenotable (env : ParseEnv) : ∀ e : Expr, Decidable (e.Denotable env)
  | not e => decidableDenotable env e
  | and a b | or a b =>
    @instDecidableAnd _ _ (decidableDenotable env a) (decidableDenotable env b)
  | raw _ field v | interpreted _ field v =>
    inferInstanceAs (Decidable (field.Denotable ∧ NulFree v))
  | value _ c => inferInstanceAs (Decidable c.Denotable)
  | fieldExists _ => isFalse id
  | regexp re => inferInstanceAs (Decidable (NulFree re ∧ env.regcomp re = none))

instance Expr.decidableFits : ∀ e : Expr, Decidable e.Fits
  | not e => decidableFits e
  | and a b | or a b => @instDecidableAnd _ _ (decidableFits a) (decidableFits b)
  | raw _ field v | interpreted _ field v =>
    inferInstanceAs (Decidable (field.text.length ≤ intMax ∧ (quote v).length ≤ intMax))
  | value _ _ | fieldExists _ => isTrue trivial
  | regexp re => inferInstanceAs (Decidable ((delimit 47 re).length ≤ intMax))

/-! ## Single tokens -/

/-- The parser at a token with this text. -/
def tokenAt (token : Token) (text rest : Bytes) : Parsing := ⟨token, text ++ rest, text.length, rest⟩

theorem lex_eq {token : Token} {c : UInt8} {text rest : Bytes}
    (h : lexToken (c :: text ++ rest) = .ok (token, rest)) (hblank : isBlank c = false) :
    lex (c :: text ++ rest) = if intMax < (c :: text).length then .error (ascii "Token too long")
      else .ok (tokenAt token (c :: text) rest) := by
  have hskip : (c :: text ++ rest).dropWhile isBlank = c :: text ++ rest :=
    dropWhile_cons_of_neg (by simp [hblank])
  have hsub : (c :: text ++ rest).length - rest.length = (c :: text).length := by
    rw [length_append]
    omega
  simp only [lex, hskip, h]
  show (if intMax < (c :: text ++ rest).length - rest.length then _ else _) = _
  rw [hsub]
  rfl

theorem lex_of_lexToken {token : Token} {c : UInt8} {text rest : Bytes}
    (h : lexToken (c :: text ++ rest) = .ok (token, rest)) (hblank : isBlank c = false)
    (hlen : (c :: text).length ≤ intMax) :
    lex (c :: text ++ rest) = .ok (tokenAt token (c :: text) rest) := by
  rw [lex_eq h hblank, if_neg (Nat.not_lt.mpr hlen)]

variable {e : Expr} {t s w : Bytes} {p : Parsing} {ops : List (Bytes × Expr)} {field : FieldRef}
  {o : Bytes × Expr}

/-- What is read, if there is no error. -/
theorem lex_eq_ok_iff : lex s = .ok p ↔
      lexToken (s.dropWhile isBlank) = .ok (p.token, p.src) ∧ p.start = s.dropWhile isBlank ∧
        p.len = p.start.length - p.src.length ∧ p.len ≤ intMax := by
  rw [lex]
  cases h : lexToken (s.dropWhile isBlank) with
  | error msg => exact ⟨nofun, fun h => nomatch h.1⟩
  | ok r =>
    obtain ⟨token, src⟩ := r
    show (if intMax < (s.dropWhile isBlank).length - src.length then _ else _) = _ ↔ _
    by_cases hlen : intMax < (s.dropWhile isBlank).length - src.length
    · grind
    · rw [if_neg hlen]
      constructor
      · intro hp
        cases hp
        exact ⟨rfl, rfl, rfl, Nat.not_lt.mp hlen⟩
      · rintro ⟨hsrc, hstart, heq, -⟩
        obtain ⟨token', start', len', src'⟩ := p
        cases hsrc
        dsimp only at hstart heq
        rw [heq, hstart]

/-- A blank is skipped. -/
theorem lex_blank (s : Bytes) : lex (32 :: s) = lex s := by
  have hskip : (32 :: s : Bytes).dropWhile isBlank = s.dropWhile isBlank := dropWhile_cons_of_pos rfl
  simp only [lex, hskip]

theorem delimited_escape {d : UInt8} (hd : d ≠ 92) (s rest : Bytes) :
    delimited d ((s.flatMap fun c => if c = 92 ∨ c = d then [92, c] else [c]) ++ d :: rest) =
      .ok (s, rest) := by
  induction s with
  | nil =>
    rw [flatMap_nil, nil_append, delimited.eq_def]
    exact if_pos rfl
  | cons c s ih =>
    rw [flatMap_cons, append_assoc]
    by_cases hc : c = 92 ∨ c = d
    · have hesc : ¬ (c ≠ 92 ∧ c ≠ d) := fun h => hc.elim h.1 h.2
      rw [if_pos hc, cons_append, singleton_append, delimited, if_neg hd.symm, if_pos rfl,
        if_neg hesc, ih]
      rfl
    · have hc' := not_or.mp hc
      rw [if_neg hc, singleton_append, delimited.eq_def]
      dsimp only
      rw [if_neg hc'.2, if_neg hc'.1, ih]
      rfl

theorem delimit_append (d : UInt8) (s rest : Bytes) : delimit d s ++ rest =
    d :: ((s.flatMap fun c => if c = 92 ∨ c = d then [92, c] else [c]) ++ d :: rest) := by
  simp [delimit]

theorem lexToken_quote (s rest : Bytes) : lexToken (quote s ++ rest) = .ok (.string s, rest) := by
  rw [quote, delimit_append]
  show (delimited 34 _).map _ = _
  rw [delimited_escape (by decide)]
  rfl

theorem lex_quote (hlen : (quote s).length ≤ intMax) (rest : Bytes) :
    lex (quote s ++ rest) = .ok (tokenAt (.string s) (quote s) rest) :=
  lex_of_lexToken (lexToken_quote s rest) rfl hlen

/-- The length of a token is an `int`. -/
theorem lex_quote_long (hlen : intMax < (quote s).length) (rest : Bytes) :
    lex (quote s ++ rest) = .error (ascii "Token too long") :=
  (lex_eq (lexToken_quote s rest) rfl).trans (if_pos hlen)

theorem lex_regexp (hlen : (delimit 47 s).length ≤ intMax) (rest : Bytes) :
    lex (delimit 47 s ++ rest) = .ok (tokenAt (.regexp s) (delimit 47 s) rest) := by
  refine lex_of_lexToken ?_ rfl hlen
  show lexToken (delimit 47 s ++ rest) = _
  rw [delimit_append]
  show (delimited 47 _).map _ = _
  rw [delimited_escape (by decide)]
  rfl

/-- What may follow a word: no character of a word, and nothing that makes it an operator. -/
def EndsWord (rest : Bytes) : Prop :=
  ∀ c, rest.head? = some c → isUnquoted c = false ∧ c ≠ 61 ∧ c ≠ 33

theorem unquoted_cases : ∀ c : UInt8, isUnquoted c = true →
    isBlank c = false ∧ c ∉ [33, 34, 47, 38, 40, 41, 60, 61, 62, 92, 124] :=
  forall_byte (by decide +kernel)

theorem lex_word {rest : Bytes} (hne : w ≠ []) (hw : ∀ c ∈ w, isUnquoted c = true)
    (hrest : EndsWord rest) (hlen : w.length ≤ intMax) :
    lex (w ++ rest) = .ok (tokenAt (.string w) w rest) := by
  obtain ⟨c, w, rfl⟩ := exists_cons_of_ne_nil hne
  obtain ⟨hblank, hc⟩ := unquoted_cases c (hw c mem_cons_self)
  have hnext : ∀ d, (w ++ rest).head? = some d → d ≠ 61 ∧ d ≠ 33 := by
    intro d hd
    cases w with
    | nil => exact (hrest d hd).2
    | cons e w =>
      obtain rfl := some.inj hd
      have he := (unquoted_cases e (hw e (mem_cons_of_mem _ mem_cons_self))).2
      exact ⟨fun h => he (by simp [h]), fun h => he (by simp [h])⟩
  have hw' : ∀ d ∈ w, isUnquoted d = true := fun d hd => hw d (mem_cons_of_mem c hd)
  have hstop : rest.takeWhile isUnquoted = [] ∧ rest.dropWhile isUnquoted = rest := by
    cases rest with
    | nil => exact ⟨rfl, rfl⟩
    | cons d rest =>
      have hd := (hrest d rfl).1
      exact ⟨takeWhile_cons_of_neg (by simp [hd]), dropWhile_cons_of_neg (by simp [hd])⟩
  have htake : (w ++ rest).takeWhile isUnquoted = w := by
    rw [takeWhile_append_of_pos hw', hstop.1, append_nil]
  have hdrop : (w ++ rest).dropWhile isUnquoted = rest := by
    rw [dropWhile_append_of_pos hw', hstop.2]
  refine lex_of_lexToken ?_ hblank hlen
  simp only [mem_cons, not_mem_nil, or_false, not_or] at hc
  have heq : ¬ (w ++ rest).head? = some 61 := fun h => (hnext 61 h).1 rfl
  have hbang : ¬ (w ++ rest).take 2 = [33, 61] := fun h => by
    cases hs : w ++ rest with
    | nil =>
      rw [hs] at h
      cases h
    | cons d s =>
      rw [hs] at h hnext
      exact (hnext d rfl).2 (List.cons.inj h).1
  rw [cons_append]
  generalize w ++ rest = s at *
  simp [lexToken, hc, heq, hbang, hw c mem_cons_self, htake, hdrop]

/-! ## Comparisons -/

/-- What may follow an expression: a blank, a closing parenthesis, or nothing. -/
def Ends (rest : Bytes) : Prop := ∀ c, rest.head? = some c → c = 32 ∨ c = 41

theorem Ends.word {rest : Bytes} (h : Ends rest) : EndsWord rest := by
  intro c hc
  rcases h c hc with rfl | rfl <;> decide

theorem ends_nil : Ends [] := nofun

theorem ends_blank (s : Bytes) : Ends (32 :: s) := fun _ hc => .inl (some.inj hc).symm

theorem ends_paren (s : Bytes) : Ends (41 :: s) := fun _ hc => .inr (some.inj hc).symm

theorem lex_raw (ne : Bool) (s : Bytes) : lex (32 :: (ascii (if ne then "r!=" else "r=") ++ 32 :: s)) =
      .ok (tokenAt (.raw ne) (ascii (if ne then "r!=" else "r=")) (32 :: s)) := by
  rw [lex_blank]
  cases ne <;> exact lex_of_lexToken rfl rfl (by decide)

theorem lex_interpreted (ne : Bool) (s : Bytes) :
    lex (32 :: (ascii (if ne then "i!=" else "i=") ++ 32 :: s)) =
      .ok (tokenAt (.interpreted ne) (ascii (if ne then "i!=" else "i=")) (32 :: s)) := by
  rw [lex_blank]
  cases ne <;> exact lex_of_lexToken rfl rfl (by decide)

theorem lex_valueOp (op : ValueOp) (s : Bytes) :
    lex (32 :: (op.text ++ 32 :: s)) = .ok (tokenAt (.value op) op.text (32 :: s)) := by
  rw [lex_blank]
  cases op <;> exact lex_of_lexToken rfl rfl (by decide)

section Comparison

variable {env : ParseEnv} {rest : Bytes} {p' : Parsing}

theorem expectString_tokenAt (v w rest : Bytes) : (tokenAt (.string v) w rest).expectString = .ok v := rfl

/-- A comparison with a string. -/
theorem parseOperator_string {ne : Bool} {v op : Bytes} {token : Token}
    {q : Parsing} (hop : ∀ s, lex (32 :: (op ++ 32 :: s)) = .ok (tokenAt token op (32 :: s)))
    (htoken : token = .raw ne ∧ e = .raw ne field v ∨
      token = .interpreted ne ∧ e = .interpreted ne field v)
    (hv : (quote v).length ≤ intMax) (hq : q.src = 32 :: (op ++ 32 :: (quote v ++ rest)))
    (hlex : lex rest = .ok p') : parseOperator env field q = .ok (e, p') := by
  have hstring : lex (32 :: (quote v ++ rest)) = _ := (lex_blank _).trans (lex_quote hv rest)
  rw [parseOperator, hq, bind_of_ok (hop _)]
  rcases htoken with ⟨rfl, rfl⟩ | ⟨rfl, rfl⟩
  all_goals
    dsimp only [tokenAt]
    rw [bind_of_ok hstring, bind_of_ok (expectString_tokenAt v _ rest)]
    dsimp only [tokenAt]
    rw [bind_of_ok hlex]
    rfl

/-- A comparison by value, if the value is read. -/
theorem parseOperator_value {op : ValueOp} {c : Constant} {q : Parsing} {after : Bytes}
    (hq : q.src = 32 :: (op.text ++ 32 :: (w ++ after)))
    {v : Bytes} (hp : lex (w ++ after) = .ok p) (htoken : p.token = .string v)
    (hval : parseValue env v p c.field = .ok (c, rest)) (hlex : lex rest = .ok p') :
    parseOperator env c.field q = .ok (.value op c, p') := by
  have hstring : lex (32 :: (w ++ after)) = .ok p := (lex_blank _).trans hp
  have hexpect : p.expectString = .ok v := by rw [Parsing.expectString, htoken]
  rw [parseOperator, hq, bind_of_ok (lex_valueOp op _)]
  dsimp only [tokenAt]
  rw [bind_of_ok hstring, bind_of_ok hexpect, bind_of_ok hval, bind_of_ok hlex]
  rfl

end Comparison

/-! ## Values -/

theorem unquoted_of_isDigit {c : UInt8} (h : isDigit c = true) : isUnquoted c = true := by
  rw [isDigit] at h
  simp [isUnquoted, h]

/-- A number is a word. -/
theorem lex_number {n : Nat} (hn : n < 10 ^ 20) {rest : Bytes} (h : Ends rest) :
    lex (printNat 10 n ++ rest) = .ok (tokenAt (.string (printNat 10 n)) (printNat 10 n) rest) := by
  refine lex_word (printNat_ne_nil 10 n) ?_ h.word ?_
  · exact fun c hc => unquoted_of_isDigit ((isDecimal_printNat n).digits c hc)
  · have hlen := length_digitsFuel_le (b := 10) (n + 1) (k := 19) hn
    exact hlen.trans (by decide)

theorem head_msgTypeTable :
    (msgTypeTable.all fun entry => (ascii entry.1).head?.all fun b => !isDigit b) = true := by
  decide +kernel

/-- The number of a record type is no name of one. -/
theorem auditNameToMsgType_printNat {n : Nat} (hn : n < 2 ^ 31) :
    auditNameToMsgType (printNat 10 n) = n := by
  have hdec := isDecimal_printNat n
  have hval := hdec.strtol_eq (by rw [ofDigits_printNat]; omega)
  rw [ofDigits_printNat] at hval
  obtain ⟨c, ds, hds⟩ := exists_cons_of_ne_nil hdec.ne_nil
  have hc := hdec.digits c (by rw [hds]; exact mem_cons_self)
  have hplain : upcase c = c ∧ c ≠ 85 := by
    simp only [isDigit, Bool.and_eq_true, decide_eq_true_eq, UInt8.le_iff_toNat_le] at hc
    refine ⟨if_neg fun h => ?_, fun h => ?_⟩
    · have := UInt8.le_iff_toNat_le.mp h.1
      simp at this hc
      omega
    · subst h
      exact absurd hc.2 (by decide)
  have hnone : msgTypeS2i (c :: ds) = none := by
    rw [msgTypeS2i, map_eq_none_iff, find?_eq_none]
    intro entry hentry heq
    have hhead := congrArg List.head? (beq_iff_eq.mp heq)
    rw [map_cons, head?_cons, hplain.1] at hhead
    have hletter := all_eq_true.mp head_msgTypeTable entry hentry
    rw [hhead, all_some, hc] at hletter
    cases hletter
  have hunknown : (ascii "UNKNOWN[").isPrefixOf (c :: ds) = false := by
    have hascii : ascii "UNKNOWN[" = 85 :: ascii "NKNOWN[" := rfl
    rw [hascii, isPrefixOf_cons_cons, beq_eq_false_iff_ne.mpr hplain.2.symm, Bool.false_and]
  rw [hds] at hval ⊢
  delta auditNameToMsgType
  simp only [hnone, hunknown, Bool.false_eq_true, if_false, hc, if_true, hval, longToInt, Int.bmod]
  split <;> omega

theorem toUInt32_ofNat_toNat (m : UInt32) : (UInt64.ofNat m.toNat).toUInt32 = m := by simp

theorem timestampChar_of_isDigit : ∀ c, isDigit c = true → isTimestampChar c = true :=
  forall_byte (by decide +kernel)

section Value

variable {sec milli rest : Bytes}

theorem timestampChar_of_isDecimal {ds : Bytes} (h : IsDecimal ds) :
    ∀ c ∈ ds, isTimestampChar c = true :=
  fun c hc => timestampChar_of_isDigit c (h.digits c hc)

/-- Up to the milliseconds. -/
theorem timestampChar_sec (hsec : IsDecimal sec) :
    ∀ c ∈ ascii "ts:" ++ (sec ++ [46]), isTimestampChar c = true := by
  have hall : ∀ c ∈ ascii "ts:", isTimestampChar c = true := by decide +kernel
  intro c hc
  simp only [mem_append, mem_singleton] at hc
  rcases hc with hc | hc | rfl
  · exact hall c hc
  · exact timestampChar_of_isDecimal hsec c hc
  · rfl

/-- What is passed over. -/
theorem dropWhile_taken (hsec : IsDecimal sec) (hmilli : IsDecimal milli) (s : Bytes) :
    (ascii "ts:" ++ (sec ++ 46 :: (milli ++ s))).dropWhile isTimestampChar =
      s.dropWhile isTimestampChar := by
  have hsplit : ascii "ts:" ++ (sec ++ 46 :: (milli ++ s)) =
      (ascii "ts:" ++ (sec ++ [46])) ++ (milli ++ s) := by simp
  rw [hsplit, dropWhile_append_of_pos (timestampChar_sec hsec),
    dropWhile_append_of_pos (timestampChar_of_isDecimal hmilli)]

/-- Seconds and milliseconds are scanned; what does not fit is cut off. -/
theorem scanTimestamp_taken (hsec : IsDecimal sec) (hmilli : IsDecimal milli) (hrest : Stops rest) :
    scanTimestamp (ascii "ts:" ++ (sec ++ 46 :: (milli ++ rest))) =
      some (Int64.ofNat (min (ofDigits sec) (2 ^ 63 - 1)),
        (UInt64.ofNat (min (ofDigits milli) (2 ^ 64 - 1))).toUInt32, rest) := by
  have htext : ascii "ts:" ++ (sec ++ 46 :: (milli ++ rest)) =
      116 :: 115 :: 58 :: (sec ++ 46 :: (milli ++ rest)) := rfl
  rw [htext]
  simp only [scanTimestamp, scanChar, head?_cons, drop_succ_cons, drop_zero, if_true,
    bind_eq_bind, bind_some, hsec.scanSigned_eq (stops_cons (c := 46) rfl _), hmilli.scanUnsigned_eq hrest]

/-- The first token of a time stamp. -/
theorem lex_time (hs : s.dropWhile isBlank = ascii "ts:" ++ t) :
    ∃ p, lex s = .ok p ∧ p.token = .string (ascii "ts") ∧ p.start = ascii "ts:" ++ t := by
  have hword : lex (ascii "ts" ++ 58 :: t) = .ok (tokenAt (.string (ascii "ts")) (ascii "ts") (58 :: t)) :=
    lex_word (by decide +kernel) (by decide +kernel) (fun c hc => some.inj hc ▸ (by decide))
      (by decide +kernel)
  refine ⟨tokenAt (.string (ascii "ts")) (ascii "ts") (58 :: t), ?_, rfl, rfl⟩
  rw [← hword, lex, lex]
  have hskip : (ascii "ts" ++ 58 :: t).dropWhile isBlank = ascii "ts:" ++ t := rfl
  simp only [hs, hskip]

/-- The numbers that were written. -/
theorem scanTimestamp_printNat {sec : Int64} (hsec : 0 ≤ sec.toInt) (milli : UInt32) (hrest : Stops rest) :
    scanTimestamp (ascii "ts:" ++ (printNat 10 sec.toInt.toNat ++ 46 ::
      (printNat 10 milli.toNat ++ rest))) = some (sec, milli, rest) := by
  have := sec.toInt_lt
  have := milli.toNat_lt
  rw [scanTimestamp_taken (isDecimal_printNat _) (isDecimal_printNat _) hrest, ofDigits_printNat,
    ofDigits_printNat, Nat.min_eq_left (by omega), Nat.min_eq_left (by omega), toUInt32_ofNat_toNat,
    ← Int64.ofInt_eq_ofNat, Int.toNat_of_nonneg hsec, Int64.ofInt_toInt]

theorem dropWhile_ends (h : Ends rest) : rest.dropWhile isTimestampChar = rest := by
  refine dropWhile_append_stop (a := []) (fun c hc => by cases hc) fun c hc => ?_
  rcases h c hc with rfl | rfl <;> decide

theorem stops_of_ends (h : Ends rest) : Stops rest := by
  intro c hc
  rcases h c hc with rfl | rfl <;> decide

/-- The value of a comparison is read. -/
theorem Constant.reads (env : ParseEnv) {c : Constant} (hc : c.Denotable) (hrest : Ends rest) :
    ∃ p v, lex (c.text ++ rest) = .ok p ∧ p.token = .string v ∧
      parseValue env v p c.field = .ok (c, rest) := by
  cases c with
  | unsigned name val =>
    have hlt := val.toNat_lt
    have hid : idFields.contains name = true := contains_iff_mem.mpr hc
    refine ⟨_, _, lex_number (by omega) hrest, rfl, ?_⟩
    rw [Constant.field, parseValue, if_pos hid, parseUnsignedValue, (isDecimal_printNat _).strtoul_eq,
      ofDigits_printNat, if_neg (by omega)]
    dsimp only
    rw [toUInt32_ofNat_toNat]
    rfl
  | recordType type =>
    have hnat : (type.toNat : Int) = type := Int.toNat_of_nonneg hc.1
    have hlt : type.toNat < 2 ^ 31 := by
      have := hc.2
      omega
    refine ⟨_, _, lex_number (by omega) hrest, rfl, ?_⟩
    rw [Constant.field, parseValue, parseRecordTypeValue, auditNameToMsgType_printNat hlt, hnat]
    exact if_neg (Int.not_lt.mpr hc.1)
  | timestamp sec milli =>
    have htext : (Constant.timestamp sec milli).text ++ rest = ascii "ts:" ++
        (printNat 10 sec.toInt.toNat ++ 46 :: (printNat 10 milli.toNat ++ rest)) := by
      simp [Constant.text, timeText]
    obtain ⟨p, hp, htoken, hstart⟩ := lex_time (congrArg (List.dropWhile isBlank) htext)
    refine ⟨p, _, hp, htoken, ?_⟩
    rw [Constant.field, parseValue, parseTimestampValue, hstart,
      scanTimestamp_printNat hc milli (stops_of_ends hrest)]
    rw [dropWhile_taken (isDecimal_printNat _) (isDecimal_printNat _), dropWhile_ends hrest]
    rfl
  | timestampEx sec milli serial =>
    have htext : (Constant.timestampEx sec milli serial).text ++ rest = ascii "ts:" ++
        (printNat 10 sec.toInt.toNat ++ 46 :: (printNat 10 milli.toNat ++
          58 :: (printNat 10 serial.toNat ++ rest))) := by
      simp [Constant.text, timeText]
    obtain ⟨p, hp, htoken, hstart⟩ := lex_time (congrArg (List.dropWhile isBlank) htext)
    have hserial := (isDecimal_printNat serial.toNat).scanUnsigned_eq (stops_of_ends hrest)
    have := serial.toNat_lt
    rw [ofDigits_printNat, Nat.min_eq_left (by omega)] at hserial
    refine ⟨p, _, hp, htoken, ?_⟩
    rw [Constant.field, parseValue, parseTimestampValue, hstart,
      scanTimestamp_printNat hc milli (stops_cons rfl _)]
    rw [dropWhile_taken (isDecimal_printNat _) (isDecimal_printNat _), dropWhile_cons_of_pos rfl,
      dropWhile_append_of_pos (timestampChar_of_isDecimal (isDecimal_printNat _)),
      dropWhile_ends hrest]
    simp [scanChar, hserial]

end Value

/-! ## What a parser reads -/

/-- The parser `f` reads the text as `e`, up to the token that follows, which is `ok`.  The text does
not start with an equal sign. -/
structure Reads (f : Parsing → Except Bytes (Expr × Parsing)) (ok : Token → Prop) (text : Bytes)
    (e : Expr) : Prop where
  head : ∃ c t, text = c :: t ∧ c ≠ 61
  parse : ∀ rest p', Ends rest → lex rest = .ok p' → ok p'.token →
    ∃ p, lex (text ++ rest) = .ok p ∧ f p = .ok (e, p')

/-- Any token. -/
abbrev anyToken (_ : Token) : Prop := True

section Primary

variable {env : ParseEnv} {n : Nat}

/-- An escaped word that is no field. -/
theorem parsePrimary_escaped_regexp {src : Bytes} (hp : lex src = .ok p)
    (htoken : p.token = .string (ascii "regexp")) :
    parsePrimary env (n + 1) (tokenAt .fieldEscape w src) = parseComparisonRegexp env p := by
  show parseComparison env (tokenAt .fieldEscape w src) = _
  rw [parseComparison]
  dsimp only [tokenAt]
  rw [bind_of_ok hp, htoken]
  exact if_pos rfl

/-- An escaped word that is a field. -/
theorem parsePrimary_escaped_field {v src : Bytes} {id : FieldId}
    (hp : lex src = .ok p) (htoken : p.token = .string v) (hv : v ≠ ascii "regexp")
    (hid : parseEscapedFieldName v = some id) :
    parsePrimary env (n + 1) (tokenAt .fieldEscape w src) = parseOperator env (.virtual id) p := by
  show parseComparison env (tokenAt .fieldEscape w src) = _
  rw [parseComparison]
  dsimp only [tokenAt]
  rw [bind_of_ok hp, htoken]
  dsimp only
  rw [if_neg hv, hid]

/-- The field of a comparison is read. -/
theorem FieldRef.reads (env : ParseEnv) (n : Nat) (hlen : field.text.length ≤ intMax) (s : Bytes) :
    ∃ p q, lex (field.text ++ 32 :: s) = .ok p ∧
      parsePrimary env (n + 1) p = parseOperator env field q ∧ q.src = 32 :: s := by
  cases field with
  | name name => exact ⟨_, _, lex_quote hlen _, rfl, rfl⟩
  | «virtual» id =>
    have hword : lex (id.text ++ 32 :: s) = .ok (tokenAt (.string id.text) id.text (32 :: s)) := by
      refine lex_word ?_ ?_ (ends_blank s).word ?_ <;> cases id <;> decide +kernel
    have hescape : lex ([92] ++ (id.text ++ 32 :: s)) =
        .ok (tokenAt .fieldEscape [92] (id.text ++ 32 :: s)) :=
      lex_of_lexToken rfl rfl (by decide)
    have hid : parseEscapedFieldName id.text = some id ∧ id.text ≠ ascii "regexp" := by
      cases id <;> decide
    refine ⟨_, tokenAt (.string id.text) id.text (32 :: s), hescape, ?_, rfl⟩
    exact parsePrimary_escaped_field hword rfl hid.2 hid.1

theorem head_field (field : FieldRef) (s : Bytes) : ∃ c t, field.text ++ s = c :: t ∧ c ≠ 61 := by
  cases field with
  | name name => exact ⟨34, _, rfl, by decide⟩
  | «virtual» id => exact ⟨92, _, rfl, by decide⟩

theorem comparison_append (field : FieldRef) (op value rest : Bytes) :
    comparison field op value ++ rest = field.text ++ 32 :: (op ++ 32 :: (value ++ rest)) := by
  simp [comparison]

/-- The names of users and groups are short. -/
theorem Constant.fits {c : Constant} (hc : c.Denotable) : c.field.text.length ≤ intMax := by
  cases c with
  | unsigned name val =>
    have hall : ∀ s ∈ idFields, (quote s).length ≤ intMax := by decide +kernel
    exact hall name hc
  | timestamp sec milli =>
    show (FieldRef.virtual .timestamp).text.length ≤ intMax
    decide
  | timestampEx sec milli serial =>
    show (FieldRef.virtual .timestampEx).text.length ≤ intMax
    decide
  | recordType type =>
    show (FieldRef.virtual .recordType).text.length ≤ intMax
    decide

/-- A regular expression is read. -/
theorem parsePrimary_regexp {re rest : Bytes} {p' : Parsing} (hre : env.regcomp re = none)
    (hlen : (delimit 47 re).length ≤ intMax) (hlex : lex rest = .ok p') :
    ∃ p, lex (ascii "\\regexp " ++ delimit 47 re ++ rest) = .ok p ∧
      parsePrimary env (n + 1) p = .ok (.regexp re, p') := by
  have hescape : lex ([92] ++ (ascii "regexp" ++ 32 :: (delimit 47 re ++ rest))) =
      .ok (tokenAt .fieldEscape [92] (ascii "regexp" ++ 32 :: (delimit 47 re ++ rest))) :=
    lex_of_lexToken rfl rfl (by decide)
  have hword := lex_word (w := ascii "regexp") (by decide +kernel) (by decide +kernel)
    (ends_blank (delimit 47 re ++ rest)).word (by decide +kernel)
  have hregexp : lex (32 :: (delimit 47 re ++ rest)) = _ := (lex_blank _).trans (lex_regexp hlen rest)
  refine ⟨_, hescape, (parsePrimary_escaped_regexp hword rfl).trans ?_⟩
  rw [parseComparisonRegexp]
  dsimp only [tokenAt]
  rw [bind_of_ok hregexp]
  dsimp only [tokenAt]
  rw [hre]
  rw [bind_of_ok hlex]
  rfl

theorem reads_of_operator {op value : Bytes} (hfield : field.text.length ≤ intMax)
    (h : ∀ rest p' (q : Parsing), Ends rest → lex rest = .ok p' →
      q.src = 32 :: (op ++ 32 :: (value ++ rest)) → parseOperator env field q = .ok (e, p')) :
    Reads (parsePrimary env (n + 1)) anyToken (comparison field op value) e := by
  refine ⟨head_field field _, fun rest p' hrest hlex _ => ?_⟩
  obtain ⟨p, q, hp, hparse, hq⟩ := FieldRef.reads env n hfield (op ++ 32 :: (value ++ rest))
  exact ⟨p, by rw [comparison_append, hp], hparse.trans (h rest p' q hrest hlex hq)⟩

/-- A comparison is read. -/
theorem reads_comparison (he : e.Denotable env) (hfits : e.Fits)
    (hsimple : e.isCompound = false) : Reads (parsePrimary env (n + 1)) anyToken e.text e := by
  cases e with
  | not e => cases hsimple
  | and a b => cases hsimple
  | or a b => cases hsimple
  | fieldExists name => exact he.elim
  | raw ne field v =>
    exact reads_of_operator hfits.1 fun rest p' q _ hlex hq =>
      parseOperator_string (lex_raw ne) (.inl ⟨rfl, rfl⟩) hfits.2 hq hlex
  | interpreted ne field v =>
    exact reads_of_operator hfits.1 fun rest p' q _ hlex hq =>
      parseOperator_string (lex_interpreted ne) (.inr ⟨rfl, rfl⟩) hfits.2 hq hlex
  | value op c =>
    refine reads_of_operator (Constant.fits he) fun rest p' q hrest hlex hq => ?_
    obtain ⟨r, v, hr, htoken, hval⟩ := Constant.reads env he hrest
    exact parseOperator_value hq hr htoken hval hlex
  | regexp re =>
    refine ⟨⟨92, _, rfl, by decide⟩, fun rest p' hrest hlex _ => ?_⟩
    exact parsePrimary_regexp he.2 hfits hlex

end Primary

/-! ## Operators between operands -/

section Chain

variable {sub : Parsing → Except Bytes (Expr × Parsing)} {ok : Token → Prop} {token : Token}
  {op : Expr → Expr → Expr} {sep : Bytes}

/-- Further operands, each behind an operator. -/
def further (sep : Bytes) (ops : List (Bytes × Expr)) : Bytes :=
  ops.flatMap fun o => 32 :: (sep ++ 32 :: o.1)

theorem ends_further (ops : List (Bytes × Expr)) {rest : Bytes} (h : Ends rest) :
    Ends (further sep ops ++ rest) := by
  cases ops with
  | nil => exact h
  | cons o ops => exact ends_blank _

theorem length_further (sep : Bytes) (ops : List (Bytes × Expr)) : ops.length ≤ (further sep ops).length := by
  induction ops with
  | nil => exact le_rfl
  | cons o ops ih =>
    rw [further, flatMap_cons, ← further, length_append, length_cons, length_cons]
    omega

theorem chain_reads (hsep : ∀ s, lex (sep ++ s) = .ok (tokenAt token sep s)) (htoken : ok token)
    (hops : ∀ o ∈ ops, Reads sub ok o.1 o.2) {rest : Bytes}
    {p' : Parsing} (hrest : Ends rest) (hlex : lex rest = .ok p') (hok : ok p'.token)
    (hp' : p'.token ≠ token) :
    ∃ p, lex (further sep ops ++ rest) = .ok p ∧ ok p.token ∧ ops.length ≤ p.src.length ∧
      ∀ n res, ops.length < n →
        chain sub token op n res p = .ok (ops.foldl (fun e o => op e o.2) res, p') := by
  induction ops with
  | nil =>
    refine ⟨p', hlex, hok, Nat.zero_le _, fun n res hn => ?_⟩
    obtain ⟨n, rfl⟩ : ∃ m, n = m + 1 := ⟨n - 1, by omega⟩
    rw [chain, if_neg hp']
    rfl
  | cons o ops ih =>
    obtain ⟨p₁, hp₁, hok₁, hlen₁, hchain⟩ := ih fun o' ho' => hops o' (mem_cons_of_mem o ho')
    obtain ⟨p₂, hp₂, hsub⟩ := (hops o mem_cons_self).parse _ p₁ (ends_further ops hrest) hp₁ hok₁
    have htext : further sep (o :: ops) ++ rest =
        32 :: (sep ++ 32 :: (o.1 ++ (further sep ops ++ rest))) := by
      simp [further]
    refine ⟨tokenAt token sep (32 :: (o.1 ++ (further sep ops ++ rest))), ?_, htoken, ?_, ?_⟩
    · rw [htext, lex_blank, hsep]
    · have hmore := length_further sep ops
      simp only [tokenAt, length_cons, length_append]
      omega
    · intro n res hn
      obtain ⟨n, rfl⟩ : ∃ m, n = m + 1 := ⟨n - 1, by omega⟩
      have hlex₂ : lex (32 :: (o.1 ++ (further sep ops ++ rest))) = .ok p₂ := (lex_blank _).trans hp₂
      rw [chain, tokenAt, if_pos rfl, bind_of_ok hlex₂, bind_of_ok hsub]
      exact hchain n _ (by simpa using hn)

/-- The first operand, and then the others. -/
theorem chainl_reads (hsep : ∀ s, lex (sep ++ s) = .ok (tokenAt token sep s)) (htoken : ok token)
    (hops : ∀ o' ∈ o :: ops, Reads sub ok o'.1 o'.2) :
    Reads (fun p => do
        let (res, p) ← sub p
        chain sub token op (p.src.length + 1) res p)
      (fun t => ok t ∧ t ≠ token) (o.1 ++ further sep ops)
      (ops.foldl (fun e o => op e o.2) o.2) := by
  have ho := hops o mem_cons_self
  refine ⟨?_, fun rest p' hrest hlex hok => ?_⟩
  · obtain ⟨c, t, ht, hc⟩ := ho.head
    exact ⟨c, t ++ further sep ops, by rw [ht, cons_append], hc⟩
  · obtain ⟨p₁, hp₁, hok₁, hlen, hchain⟩ := chain_reads hsep htoken
      (fun o' ho' => hops o' (mem_cons_of_mem o ho')) hrest hlex hok.1 hok.2
    obtain ⟨p, hp, hsub⟩ := ho.parse _ p₁ (ends_further ops hrest) hp₁ hok₁
    refine ⟨p, by rw [append_assoc, hp], ?_⟩
    rw [bind_of_ok hsub]
    exact hchain _ _ (Nat.lt_succ_of_le hlen)

theorem lex_and (s : Bytes) : lex (ascii "&&" ++ s) = .ok (tokenAt .and (ascii "&&") s) :=
  lex_of_lexToken rfl rfl (by decide)

theorem lex_or (s : Bytes) : lex (ascii "||" ++ s) = .ok (tokenAt .or (ascii "||") s) :=
  lex_of_lexToken rfl rfl (by decide)

theorem parseAnd_reads (hops : ∀ o' ∈ o :: ops, Reads sub anyToken o'.1 o'.2) :
    Reads (parseAnd sub) (· ≠ .and) (o.1 ++ further (ascii "&&") ops)
      (ops.foldl (fun e o => .and e o.2) o.2) := by
  have h : Reads (parseAnd sub) (fun t => anyToken t ∧ t ≠ .and) _ _ := chainl_reads lex_and trivial hops
  exact ⟨h.head, fun rest p' hrest hlex hok => h.parse rest p' hrest hlex ⟨trivial, hok⟩⟩

theorem parseOr_reads (hops : ∀ o' ∈ o :: ops, Reads (parseAnd sub) (· ≠ .and) o'.1 o'.2) :
    Reads (parseOr sub) (fun t => t ≠ .and ∧ t ≠ .or) (o.1 ++ further (ascii "||") ops)
      (ops.foldl (fun e o => .or e o.2) o.2) :=
  chainl_reads lex_or (by decide) hops

theorem parseAnd_single (h : Reads sub anyToken t e) : Reads (parseAnd sub) (· ≠ .and) t e := by
  have hone : ∀ o' ∈ [(t, e)], Reads sub anyToken o'.1 o'.2 := by simpa using h
  simpa [further] using parseAnd_reads hone

theorem parseOr_single (h : Reads (parseAnd sub) (· ≠ .and) t e) :
    Reads (parseOr sub) (fun t => t ≠ .and ∧ t ≠ .or) t e := by
  have hone : ∀ o' ∈ [(t, e)], Reads (parseAnd sub) (· ≠ .and) o'.1 o'.2 := by simpa using h
  simpa [further] using parseOr_reads hone

end Chain


/-! ## Texts of expressions -/

namespace Expr

/-- How deep an operand is, in parentheses if it needs them. -/
def operandDepth (e : Expr) (depth : Nat) : Nat := if e.isCompound then depth + 1 else depth

/-- How many exclamation marks and parentheses are inside one another. -/
def depth : Expr → Nat
  | not e => e.operandDepth e.depth + 1
  | and a b => max (a.operandDepth a.depth) (b.operandDepth b.depth)
  | or a b => max (a.operandDepth a.depth) (b.operandDepth b.depth)
  | _ => 0

theorem operandDepth_le (h : e.depth ≤ e.text.length) :
    e.operandDepth e.depth ≤ (e.asOperand e.text).length := by
  by_cases hc : e.isCompound
  · simp only [operandDepth, asOperand, if_pos hc, length_cons, length_append]
    omega
  · simpa only [operandDepth, asOperand, if_neg hc] using h

/-- A text is longer than it is deep. -/
theorem depth_le_length (e : Expr) : e.depth ≤ e.text.length := by
  induction e with
  | not e ih =>
    have := operandDepth_le ih
    simp only [depth, text, length_cons]
    omega
  | and a b iha ihb =>
    have := operandDepth_le iha
    have := operandDepth_le ihb
    simp only [depth, text, length_append]
    omega
  | or a b iha ihb =>
    have := operandDepth_le iha
    have := operandDepth_le ihb
    simp only [depth, text, length_append]
    omega
  | _ => exact Nat.zero_le _

end Expr

section Trees

variable {env : ParseEnv} {n : Nat}

theorem reads_not (h : Reads (parsePrimary env n) anyToken t e) :
    Reads (parsePrimary env (n + 1)) anyToken (33 :: t) (.not e) := by
  refine ⟨⟨33, t, rfl, by decide⟩, fun rest p' hrest hlex hok => ?_⟩
  obtain ⟨p, hp, hparse⟩ := h.parse rest p' hrest hlex hok
  have hnot : lex ([33] ++ (t ++ rest)) = .ok (tokenAt .not [33] (t ++ rest)) := by
    refine lex_of_lexToken ?_ rfl (by decide)
    -- `!==` would be another token
    obtain ⟨c, s, ht, hc⟩ := h.head
    have htake : ¬ (t ++ rest).take 2 = [61, 61] := by
      rw [ht]
      exact fun h2 => hc (List.cons.inj h2).1
    show Except.ok (if (t ++ rest).take 2 = [61, 61] then _ else _) = _
    rw [if_neg htake]
    rfl
  refine ⟨_, hnot, ?_⟩
  rw [parsePrimary]
  dsimp only [tokenAt]
  rw [bind_of_ok hp, bind_of_ok hparse]
  rfl

/-- Parentheses around an expression. -/
theorem reads_paren (h : Reads (parseOr (parsePrimary env n)) (fun t => t ≠ .and ∧ t ≠ .or) t e) :
    Reads (parsePrimary env (n + 1)) anyToken (40 :: (t ++ [41])) e := by
  refine ⟨⟨40, _, rfl, by decide⟩, fun rest p' hrest hlex _ => ?_⟩
  have hclose : lex ([41] ++ rest) = .ok (tokenAt .rightParen [41] rest) :=
    lex_of_lexToken rfl rfl (by decide)
  obtain ⟨p, hp, hparse⟩ := h.parse (41 :: rest) _ (ends_paren rest) hclose ⟨nofun, nofun⟩
  have hopen : lex ([40] ++ (t ++ 41 :: rest)) = .ok (tokenAt .leftParen [40] (t ++ 41 :: rest)) :=
    lex_of_lexToken rfl rfl (by decide)
  have htext : 40 :: (t ++ [41]) ++ rest = [40] ++ (t ++ 41 :: rest) := by simp
  refine ⟨_, htext ▸ hopen, ?_⟩
  rw [parsePrimary]
  dsimp only [tokenAt]
  rw [bind_of_ok hp, bind_of_ok hparse]
  refine (if_neg (not_not_intro rfl)).trans ?_
  rw [tokenAt, bind_of_ok hlex]
  rfl

/-- The text of an expression can be read. -/
def TextRead (env : ParseEnv) (e : Expr) : Prop :=
  ∀ n, e.depth < n →
    Reads (parseOr (parsePrimary env n)) (fun t => t ≠ .and ∧ t ≠ .or) e.text e

theorem reads_operand (he : e.Denotable env) (hfits : e.Fits) (h : TextRead env e)
    (hn : e.operandDepth e.depth < n) : Reads (parsePrimary env n) anyToken (e.asOperand e.text) e := by
  obtain ⟨m, rfl⟩ : ∃ m, n = m + 1 := ⟨n - 1, by omega⟩
  by_cases hc : e.isCompound
  · rw [Expr.operandDepth, if_pos hc] at hn
    rw [Expr.asOperand, if_pos hc]
    exact reads_paren (h m (by omega))
  · rw [Expr.asOperand, if_neg hc]
    exact reads_comparison he hfits (Bool.not_eq_true _ ▸ hc)

theorem further_single (sep t : Bytes) (e : Expr) : further sep [(t, e)] = 32 :: (sep ++ 32 :: t) := by
  simp [further]

/-- By induction on the expression: operands are read by `parse_primary`, whether they have parentheses
or not. -/
theorem textRead (he : e.Denotable env) (hfits : e.Fits) : TextRead env e := by
  induction e with
  | not e ih =>
    intro n hn
    obtain ⟨m, rfl⟩ : ∃ m, n = m + 1 := ⟨n - 1, by omega⟩
    have hop : Reads (parsePrimary env m) anyToken (e.asOperand e.text) e :=
      reads_operand he hfits (ih he hfits) (by simpa [Expr.depth] using hn)
    exact parseOr_single (parseAnd_single (reads_not hop))
  | and a b iha ihb =>
    intro n hn
    rw [Expr.depth, max_lt_iff] at hn
    have ha := reads_operand he.1 hfits.1 (iha he.1 hfits.1) hn.1
    have hb := reads_operand he.2 hfits.2 (ihb he.2 hfits.2) hn.2
    have hops : ∀ o ∈ [(a.asOperand a.text, a), (b.asOperand b.text, b)],
        Reads (parsePrimary env n) anyToken o.1 o.2 := by
      simpa using ⟨ha, hb⟩
    have hand := parseOr_single (parseAnd_reads hops)
    rw [further_single] at hand
    simpa [Expr.text, ascii] using hand
  | or a b iha ihb =>
    intro n hn
    rw [Expr.depth, max_lt_iff] at hn
    have ha := parseAnd_single (reads_operand he.1 hfits.1 (iha he.1 hfits.1) hn.1)
    have hb := parseAnd_single (reads_operand he.2 hfits.2 (ihb he.2 hfits.2) hn.2)
    have hops : ∀ o ∈ [(a.asOperand a.text, a), (b.asOperand b.text, b)],
        Reads (parseAnd (parsePrimary env n)) (· ≠ .and) o.1 o.2 := by
      simpa using ⟨ha, hb⟩
    have hor := parseOr_reads hops
    rw [further_single] at hor
    simpa [Expr.text, ascii] using hor
  | _ =>
    intro n hn
    obtain ⟨m, rfl⟩ : ∃ m, n = m + 1 := ⟨n - 1, by omega⟩
    exact parseOr_single (parseAnd_single (reads_comparison he hfits rfl))

/-- A text that is read up to its end is parsed. -/
theorem exprParse_of_reads (hnul : NulFree t)
    (h : Reads (parseOr (parsePrimary env (t.length + 1))) (fun t => t ≠ .and ∧ t ≠ .or) t e) :
    exprParse env t = .ok e := by
  obtain ⟨p, hp, hparse⟩ := h.parse [] ⟨.eof, [], 0, []⟩ ends_nil rfl ⟨nofun, nofun⟩
  rw [append_nil] at hp
  -- no expression starts at the end
  have htoken : p.token ≠ .eof := by
    intro heof
    have herror : parsePrimary env (t.length + 1) p = .error (p.complain "Unexpected token") := by
      rw [parsePrimary, heof]
    rw [parseOr, parseAnd, herror] at hparse
    cases hparse
  rw [exprParse, untilNul_of_notMem hnul]
  rw [bind_of_ok hp, if_neg htoken, bind_of_ok hparse]
  rfl

end Trees

end LibAudit.Auparse
