import LibAudit.Auparse.ExprText

/-!
# Values of comparisons: users and groups

The value in a comparison of a user or group is a number.  The parser reads it with `strtoul`, keeps 32
bits of it, and does not look at what `strtoul` leaves; the same is done with the text of the field when
the comparison is evaluated.  So a value is refused only if it is too large for 64 bits.
`ComparesExactly` says what one would expect instead, and `number32` what a number in 32 bits is.

A comparison stands in an expression, so what follows it decides too: `Token.follows`.
-/

namespace LibAudit.Auparse

open Records Option

/-! ## Comparing machine numbers -/

section Compare

variable {α β : Type} [LT α] [DecidableLT α] [DecidableEq α] [LT β] [DecidableLT β] [DecidableEq β]

theorem compareOfLessAndEq_congr {f : α → β} (hlt : ∀ a b, a < b ↔ f a < f b)
    (heq : ∀ a b, a = b ↔ f a = f b) (a b : α) :
    compareOfLessAndEq a b = compareOfLessAndEq (f a) (f b) := by
  simp only [compareOfLessAndEq, hlt a b, heq a b]

end Compare

theorem compare_toNat_uint32 (a b : UInt32) : compare a b = compare a.toNat b.toNat :=
  compareOfLessAndEq_congr (fun _ _ => UInt32.lt_iff_toNat_lt) (fun _ _ => UInt32.toNat_inj.symm) a b

theorem compare_toNat_uint64 (a b : UInt64) : compare a b = compare a.toNat b.toNat :=
  compareOfLessAndEq_congr (fun _ _ => UInt64.lt_iff_toNat_lt) (fun _ _ => UInt64.toNat_inj.symm) a b

theorem compare_toInt_int64 (a b : Int64) : compare a b = compare a.toInt b.toInt :=
  compareOfLessAndEq_congr (fun _ _ => Int64.lt_iff_toInt_lt) (fun _ _ => Int64.toInt_inj.symm) a b

/-! ## Where a comparison stands -/

/-- A token that may follow a comparison. -/
def Token.follows : Token → Bool
  | .and | .or | .rightParen | .eof => true
  | _ => false

/-- The text `s` is behind the operator `op` of a comparison, of which the field was read. -/
def Parsing.At (p : Parsing) (op : ValueOp) (s : Bytes) : Prop :=
  ∃ p₁, lex p.src = .ok p₁ ∧ p₁.token = .value op ∧ p₁.src = s

/-- The comparison that is accepted: `parse_comparison` reads it, and the parser can go on. -/
def accepted (env : ParseEnv) (field : FieldRef) (p : Parsing) : Option Expr :=
  match parseOperator env field p with
  | .ok (x, q) => if q.token.follows then some x else none
  | .error _ => none

/-- Every text can be behind an operator. -/
theorem at_eq (s : Bytes) : (tokenAt .eof [] (ascii "==" ++ s)).At .eq s := by
  refine ⟨tokenAt (.value .eq) (ascii "==") s, ?_, rfl, rfl⟩
  exact lex_of_lexToken rfl rfl (by decide)

section At

variable {env : ParseEnv} {field : FieldRef} {op : ValueOp} {s : Bytes} {p : Parsing}

/-- What is accepted, step by step. -/
theorem accepted_eq_some_iff (hp : p.At op s) {x : Expr} : accepted env field p = some x ↔
      ∃ p₂ v c src q, lex s = .ok p₂ ∧ p₂.token = .string v ∧
        parseValue env v p₂ field = .ok (c, src) ∧ lex src = .ok q ∧ q.token.follows = true ∧
        x = .value op c := by
  obtain ⟨p₁, hop, htoken, rfl⟩ := hp
  constructor
  · intro h
    rw [accepted] at h
    split at h
    · rename_i y q hparse
      split at h
      · rename_i hfollows
        obtain rfl := some.inj h
        rw [parseOperator] at hparse
        obtain ⟨p₁', hop', hparse⟩ := exists_of_bind_eq_ok hparse
        obtain rfl : p₁ = p₁' := Except.ok.inj (hop.symm.trans hop')
        simp only [htoken] at hparse
        obtain ⟨p₂, hlex, hparse⟩ := exists_of_bind_eq_ok hparse
        obtain ⟨v, hv, hparse⟩ := exists_of_bind_eq_ok hparse
        obtain ⟨⟨c, src⟩, hc, hparse⟩ := exists_of_bind_eq_ok hparse
        obtain ⟨q', hq, hparse⟩ := exists_of_bind_eq_ok hparse
        cases hparse
        refine ⟨p₂, v, c, src, q, hlex, ?_, hc, hq, hfollows, rfl⟩
        rw [Parsing.expectString] at hv
        split at hv
        · rename_i v' hstring
          rw [hstring, Except.ok.inj hv]
        · cases hv
      · cases h
    · cases h
  · rintro ⟨p₂, v, c, src, q, hlex, hstring, hc, hq, hfollows, rfl⟩
    have hparse : parseOperator env field p = .ok (.value op c, q) := by
      rw [parseOperator, hop]
      simp only [bind, Except.bind, htoken, hlex, Parsing.expectString, hstring, hc, hq]
      rfl
    rw [accepted, hparse]
    exact if_pos hfollows

end At

/-! ## Users and groups -/

/-- The number that a text is, in base ten and 32 bits. -/
def number32 (s : Bytes) : Option Nat :=
  if IsDecimal s ∧ ofDigits s < 2 ^ 32 then some (ofDigits s) else none

/-- What is made of the text of a user or group in a record. -/
def narrowed (s : Bytes) : UInt32 := ((strtoul s).getD (-1)).toUInt32

/-- The number in a field against `n`, if there is one. -/
def comparesTo (op : ValueOp) (n : Nat) : Option Nat → Bool
  | none => false
  | some m => op.holds (compare m n)

/-- If the comparison of the field `name` with the text `v` is accepted, the text is a number in 32 bits,
and on the record the comparison is that of the number in the field with it. -/
def ComparesExactly (env : ParseEnv) (op : ValueOp) (name v : Bytes) (p : Parsing) (O : Oracle)
    (e : EventId) (r : ParsedRecord) : Prop :=
  ∀ x, accepted env (.name name) p = some x →
    ∃ n, number32 v = some n ∧
      (exprEval O e x r).map Prod.fst =
        some (comparesTo op n (((r.shown O).field name).bind fun f => number32 f.raw))

section Unsigned

variable {env : ParseEnv} {op : ValueOp} {name v : Bytes}

theorem number32_eq_some {s : Bytes} {n : Nat} (h : number32 s = some n) :
    n < 2 ^ 32 ∧ strtoul s = some (UInt64.ofNat n) := by
  rw [number32] at h
  split at h
  · rename_i hs
    obtain rfl := some.inj h
    refine ⟨hs.2, ?_⟩
    rw [hs.1.strtoul_eq, if_neg (by have := hs.2; omega)]
  · cases h

theorem narrowed_toNat {s : Bytes} {n : Nat} (h : number32 s = some n) : (narrowed s).toNat = n := by
  obtain ⟨hlt, hs⟩ := number32_eq_some h
  rw [narrowed, hs, getD_some, UInt64.toNat_toUInt32, UInt64.toNat_ofNat']
  omega

/-- The value of a comparison, and a token that may follow, behind the operator. -/
structure Parsing.Value (s v : Bytes) (p₂ q : Parsing) : Prop where
  lexed : lex s = .ok p₂
  string : p₂.token = .string v
  next : lex p₂.src = .ok q
  follows : q.token.follows = true

/-- A value is taken unless it is too large. -/
theorem accepted_unsigned (hname : name ∈ idFields) {s : Bytes} {p p₂ q : Parsing} (hp : p.At op s)
    (hv : Parsing.Value s v p₂ q) :
    accepted env (.name name) p =
      (strtoul v).map fun val => .value op (.unsigned name val.toUInt32) := by
  have hid : idFields.contains name = true := List.contains_iff_mem.mpr hname
  have hvalue : ∀ x, accepted env (.name name) p = some x ↔
      (strtoul v).map (fun val => Expr.value op (.unsigned name val.toUInt32)) = some x := by
    intro x
    rw [accepted_eq_some_iff hp]
    constructor
    · rintro ⟨p₂', v', c, src, q', hlex, hstring, hc, -, -, rfl⟩
      obtain rfl : p₂ = p₂' := Except.ok.inj (hv.lexed.symm.trans hlex)
      obtain rfl : v = v' := Token.string.inj (hv.string.symm.trans hstring)
      rw [parseValue, if_pos hid, parseUnsignedValue] at hc
      split at hc
      · cases hc
      · rename_i val hval
        cases hc
        rw [hval]
        rfl
    · intro h
      obtain ⟨val, hval, rfl⟩ := map_eq_some_iff.mp h
      refine ⟨p₂, v, .unsigned name val.toUInt32, p₂.src, q, hv.lexed, hv.string, ?_, hv.next, hv.follows,
        rfl⟩
      rw [parseValue, if_pos hid, parseUnsignedValue, hval]
  exact Option.ext fun x => hvalue x

/-- The comparison on a record. -/
theorem exprEval_unsigned (O : Oracle) (e : EventId) (r : ParsedRecord) (val : UInt32) :
    (exprEval O e (.value op (.unsigned name val)) r).map Prod.fst =
      if (r.shown O).Clear name then
        some (((r.shown O).field name).elim false fun f => op.holds (compare (narrowed f.raw) val))
      else none := by
  rw [exprEval, ParsedRecord.evalUnsignedValue_eq O]
  split
  · cases (r.shown O).field name <;> rfl
  · rfl

/-- **Comparing a user or group is exact** if and only if the value is refused; or it is a number in 32
bits, no field without a name is met, and the field, if it is there, holds a number in 32 bits or the
comparison with what is made of it is false. -/
theorem comparesExactly_iff (hname : name ∈ idFields) {s : Bytes} {p p₂ q : Parsing} (hp : p.At op s)
    (hv : Parsing.Value s v p₂ q) (O : Oracle) (e : EventId) (r : ParsedRecord) :
    ComparesExactly env op name v p O e r ↔
      strtoul v = none ∨
        ∃ n, number32 v = some n ∧ (r.shown O).Clear name ∧
          ∀ f, (r.shown O).field name = some f →
            (number32 f.raw).isSome ∨ op.holds (compare (narrowed f.raw).toNat n) = false := by
  have heval : ∀ {val : UInt64} {n : Nat}, strtoul v = some val → number32 v = some n →
      (exprEval O e (.value op (.unsigned name val.toUInt32)) r).map Prod.fst =
        if (r.shown O).Clear name then
          some (((r.shown O).field name).elim false fun f =>
            op.holds (compare (narrowed f.raw).toNat n))
        else none := by
    intro val n hval hn
    have hnat : val.toUInt32.toNat = n := by
      have := narrowed_toNat hn
      rwa [narrowed, hval] at this
    simp only [exprEval_unsigned, compare_toNat_uint32, hnat]
  rw [ComparesExactly, accepted_unsigned hname hp hv]
  cases hval : strtoul v with
  | none => exact ⟨fun _ => .inl rfl, fun _ x hx => nomatch hx⟩
  | some val =>
    simp only [map_some, some.injEq, forall_eq', reduceCtorEq, false_or]
    refine exists_congr fun n => and_congr_right fun hn => ?_
    rw [heval hval hn]
    by_cases hclear : (r.shown O).Clear name
    · rw [if_pos hclear, some.injEq]
      simp only [hclear, true_and]
      cases hf : (r.shown O).field name with
      | none => exact ⟨fun _ => nofun, fun _ => rfl⟩
      | some f =>
        simp only [elim_some, bind_some, some.injEq, forall_eq']
        cases hm : number32 f.raw with
        | none => simp [comparesTo]
        | some m => simp [comparesTo, narrowed_toNat hm]
    · rw [if_neg hclear]
      exact ⟨nofun, fun h => absurd h.1 hclear⟩

/-- A user that needs 33 bits is taken for root. -/
theorem user_of_33_bits : let env : ParseEnv := ⟨fun _ => none, fun _ => 0⟩
    let O : Oracle := ⟨fun _ _ _ => none, fun _ _ => false⟩
    let r := ParsedRecord.ofRnode ⟨ascii "type=LOGIN msg=audit(7.000:1): uid=0", 1⟩
    let p := tokenAt (.string (ascii "uid")) (ascii "uid") (ascii " == 4294967296")
    (accepted env (.name (ascii "uid")) p).map (fun x => (exprEval O ⟨7, 0, 1, none⟩ x r).map Prod.fst) =
        some (some true) ∧
      ¬ ComparesExactly env .eq (ascii "uid") (ascii "4294967296") p O ⟨7, 0, 1, none⟩ r := by
  intro env O r p
  have hx : accepted env (.name (ascii "uid")) p =
      some (.value .eq (.unsigned (ascii "uid") 0)) := by decide +kernel
  refine ⟨by decide +kernel, fun h => ?_⟩
  obtain ⟨n, hn, -⟩ := h _ hx
  exact absurd hn (by rw [show number32 (ascii "4294967296") = none by decide +kernel]; exact nofun)

/-- The comparison with a user in 32 bits. -/
theorem comparesExactly_user : let env : ParseEnv := ⟨fun _ => none, fun _ => 0⟩
    let O : Oracle := ⟨fun _ _ _ => none, fun _ _ => false⟩
    let r := ParsedRecord.ofRnode ⟨ascii "type=LOGIN msg=audit(7.000:1): uid=0", 1⟩
    ComparesExactly env .eq (ascii "uid") (ascii "500")
      (tokenAt (.string (ascii "uid")) (ascii "uid") (ascii " == 500")) O ⟨7, 0, 1, none⟩ r := by
  intro env O r
  have hv : Parsing.Value (ascii " 500") (ascii "500")
      (tokenAt (.string (ascii "500")) (ascii "500") []) (tokenAt .eof [] []) :=
    ⟨by decide +kernel, rfl, by decide +kernel, rfl⟩
  refine (comparesExactly_iff (by decide +kernel)
    ⟨tokenAt (.value .eq) (ascii "==") (ascii " 500"), by decide +kernel, rfl, rfl⟩ hv O
    ⟨7, 0, 1, none⟩ r).mpr (.inr ⟨500, by decide +kernel, by decide +kernel, fun f hf => .inl ?_⟩)
  have hfield : (r.shown O).field (ascii "uid") =
      some ⟨some (ascii "uid"), ascii "0", ascii "0"⟩ := by decide +kernel
  rw [← some.inj (hfield.symm.trans hf)]
  decide +kernel

end Unsigned

end LibAudit.Auparse
