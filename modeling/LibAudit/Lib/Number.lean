import LibAudit.Lib.Text
import Mathlib.Tactic.Ring

/-!
# Numbers as text

`printf` writes a number in base ten or sixteen, and `strtoul` and `sscanf` read it.  What is written
is read back, in front of every text that does not start with a digit.
-/

namespace LibAudit

open List Option

/-! ## Writing -/

/-- The digits of `n` in base `b`, with fuel. -/
def digitsFuel (b : Nat) : Nat → Nat → Bytes
  | 0, _ => []
  | fuel + 1, n => if n < b then [hexDigit n] else digitsFuel b fuel (n / b) ++ [hexDigit (n % b)]

/-- `%u`, `%lu` and `%X`: `n` in base `b`. -/
def printNat (b n : Nat) : Bytes := digitsFuel b (n + 1) n

/-- `%d`. -/
def printInt (n : Int) : Bytes := if n < 0 then 45 :: printNat 10 n.natAbs else printNat 10 n.toNat

/-- `%0wu`: at least `w` digits. -/
def printPadded (w n : Nat) : Bytes := (printNat 10 n).leftpad w 48

/-! ## Reading -/

/-- A digit in base `b`. -/
def isDigitIn (b : Nat) (c : UInt8) : Bool := isXDigit c && decide (hexValue c < b)

/-- The number that digits in base `b` stand for. -/
def valueIn (b : Nat) (ds : Bytes) : Nat := ds.foldl (fun n d => b * n + hexValue d) 0

/-- `0x` in front of a digit. -/
def hasHexMark (s : Bytes) : Bool :=
  s.head? == some 48 && (s[1]? == some 120 || s[1]? == some 88) && (s[2]?.map isXDigit).getD false

/-- The sign and the number that `strtoul` and `strtol` find in base `base`, which may be 0 for a base
that the text decides. -/
def numberIn (base : Nat) (s : Bytes) : Bool × Nat :=
  let s := s.dropWhile isSpace
  let neg := s.head? == some 45
  let s := if s.head? == some 45 || s.head? == some 43 then s.drop 1 else s
  let b := if base ≠ 0 then base else if hasHexMark s then 16 else if s.head? == some 48 then 8 else 10
  let s := if b = 16 ∧ hasHexMark s = true then s.drop 2 else s
  (neg, valueIn b (s.takeWhile (isDigitIn b)))

/-- `strtoul`, with an `unsigned long` of 64 bits; `none` if `errno` is set to `ERANGE`. -/
def strtoulIn (base : Nat) (s : Bytes) : Option UInt64 :=
  let (neg, n) := numberIn base s
  if 2 ^ 64 ≤ n then none else some (if neg then -UInt64.ofNat n else UInt64.ofNat n)

/-- `strtol`, with a `long` of 64 bits. -/
def strtolIn (base : Nat) (s : Bytes) : Int :=
  let (neg, n) := numberIn base s
  if neg then -(min n (2 ^ 63) : Nat) else (min n (2 ^ 63 - 1) : Nat)

/-- A conversion of `sscanf` for an unsigned number in base `b`, of at most `width` characters: the
number, which is the largest there is if it does not fit, and the text behind it. -/
def scanUnsigned (b : Nat) (width : Option Nat) (s : Bytes) : Option (UInt64 × Bytes) :=
  let s := s.dropWhile isSpace
  let field := s.take (width.getD s.length)
  let sign := if field.head? == some 45 || field.head? == some 43 then 1 else 0
  let mark := if b = 16 ∧ hasHexMark (field.drop sign) = true then 2 else 0
  let ds := (field.drop (sign + mark)).takeWhile (isDigitIn b)
  let n := min (valueIn b ds) (2 ^ 64 - 1)
  if ds = [] then none
  else some (if field.head? == some 45 then -UInt64.ofNat n else UInt64.ofNat n,
    s.drop (sign + mark + ds.length))

/-- The conversion `%jd` of `sscanf`, with 64 bits: the number, or the nearest there is, and the text
behind it. -/
def scanSigned (s : Bytes) : Option (Int64 × Bytes) :=
  let s := s.dropWhile isSpace
  let sign := if s.head? == some 45 || s.head? == some 43 then 1 else 0
  let ds := (s.drop sign).takeWhile (isDigitIn 10)
  let n := valueIn 10 ds
  if ds = [] then none
  else some (if s.head? == some 45 then -Int64.ofNat (min n (2 ^ 63)) else Int64.ofNat (min n (2 ^ 63 - 1)),
    s.drop (sign + ds.length))

/-- A character of the format of `sscanf` that stands for itself. -/
def scanChar (c : UInt8) (s : Bytes) : Option Bytes := if s.head? = some c then some (s.drop 1) else none

/-! ## What is written is read back -/

variable {b n : Nat}

theorem digitsFuel_ne_nil (b fuel n : Nat) : digitsFuel b (fuel + 1) n ≠ [] := by
  rw [digitsFuel]
  split
  · exact cons_ne_nil _ _
  · exact append_ne_nil_of_right_ne_nil _ (cons_ne_nil _ _)

theorem printNat_ne_nil (b n : Nat) : printNat b n ≠ [] := digitsFuel_ne_nil b n n

theorem isDigitIn_hexDigit (hb : b ≤ 16) (hn : n < b) : isDigitIn b (hexDigit n) = true := by
  rw [isDigitIn, isXDigit_hexDigit n (by omega), hexValue_hexDigit n (by omega)]
  simpa using hn

theorem isDigitIn_of_mem_digitsFuel (hb : 2 ≤ b) (hb' : b ≤ 16) {fuel : Nat} :
    ∀ c ∈ digitsFuel b fuel n, isDigitIn b c = true := by
  induction fuel generalizing n with
  | zero => exact nofun
  | succ fuel ih =>
    intro c hc
    rw [digitsFuel] at hc
    split at hc
    · rename_i hlt
      rw [mem_singleton.mp hc]
      exact isDigitIn_hexDigit hb' hlt
    · rcases mem_append.mp hc with hc | hc
      · exact ih c hc
      · rw [mem_singleton.mp hc]
        exact isDigitIn_hexDigit hb' (Nat.mod_lt _ (by omega))

theorem valueIn_digitsFuel (hb : 2 ≤ b) (hb' : b ≤ 16) {fuel : Nat} (hn : n < fuel) :
    valueIn b (digitsFuel b fuel n) = n := by
  induction fuel generalizing n with
  | zero => exact absurd hn (Nat.not_lt_zero n)
  | succ fuel ih =>
    rw [digitsFuel]
    split
    · rw [valueIn, foldl_cons, foldl_nil, hexValue_hexDigit n (by omega), Nat.mul_zero,
        Nat.zero_add]
    · have hdiv : n / b < fuel := by
        have : n / b < n := Nat.div_lt_self (by omega) (by omega)
        omega
      have hlast : hexValue (hexDigit (n % b)) = n % b :=
        hexValue_hexDigit _ ((Nat.mod_lt _ (by omega)).trans_le hb')
      have hstep := ih hdiv
      rw [valueIn] at hstep ⊢
      rw [foldl_append, hstep, foldl_cons, foldl_nil, hlast]
      exact Nat.div_add_mod n b

theorem length_digitsFuel_le (fuel : Nat) {k : Nat} (hn : n < b ^ (k + 1)) :
    (digitsFuel b fuel n).length ≤ k + 1 := by
  induction fuel generalizing n k with
  | zero => exact Nat.zero_le _
  | succ fuel ih =>
    rw [digitsFuel]
    split
    · exact Nat.succ_le_succ (Nat.zero_le k)
    · rename_i hle
      cases k with
      | zero =>
        rw [Nat.zero_add, pow_one] at hn
        exact absurd hn hle
      | succ k =>
        have hdiv : n / b < b ^ (k + 1) := Nat.div_lt_of_lt_mul (by rwa [pow_succ, mul_comm] at hn)
        simp_all

/-- A digit is neither a blank, nor NUL, nor a sign, nor the `x` of `0x`. -/
theorem plain_of_isXDigit (c : UInt8) : isXDigit c = true →
    (isSpace c = false ∧ c ≠ 0) ∧ c ≠ 45 ∧ c ≠ 43 ∧ c ≠ 120 ∧ c ≠ 88 := by
  revert c
  exact forall_byte (by decide +kernel)

variable {s : Bytes} {c : UInt8}

theorem ne_of_isDigitIn (hc : isDigitIn b c = true) : c ≠ 10 ∧ c ≠ 0 := by
  rw [isDigitIn, Bool.and_eq_true] at hc
  obtain ⟨⟨hspace, hnul⟩, -⟩ := plain_of_isXDigit c hc.1
  refine ⟨?_, hnul⟩
  rintro rfl
  cases hspace

/-- Digits to be read, and what must follow them: in base sixteen nothing, as `0` could be the
beginning of `0x`. -/
structure Numeral (b : Nat) (ds rest : Bytes) : Prop where
  ne_nil : ds ≠ []
  digits : ∀ c ∈ ds, isDigitIn b c = true
  stops : ∀ c, rest.head? = some c → isDigitIn b c = false
  alone : b = 16 → rest = []

theorem numeral_printNat (hb : 2 ≤ b) (hb' : b ≤ 16) {rest : Bytes}
    (hstops : ∀ c, rest.head? = some c → isDigitIn b c = false) (halone : b = 16 → rest = []) :
    Numeral b (printNat b n) rest :=
  ⟨printNat_ne_nil b n, isDigitIn_of_mem_digitsFuel hb hb', hstops, halone⟩

namespace Numeral

variable {ds rest : Bytes} (h : Numeral b ds rest)

include h

theorem takeWhile_eq : (ds ++ rest).takeWhile (isDigitIn b) = ds :=
  takeWhile_append_stop h.digits h.stops

theorem exists_cons : ∃ c ds', ds = c :: ds' ∧ isSpace c = false ∧ c ≠ 45 ∧ c ≠ 43 := by
  obtain ⟨c, ds', rfl⟩ := exists_cons_of_ne_nil h.ne_nil
  have hc := h.digits c mem_cons_self
  rw [isDigitIn, Bool.and_eq_true] at hc
  obtain ⟨⟨hspace, -⟩, hminus, hplus, -, -⟩ := plain_of_isXDigit c hc.1
  exact ⟨c, ds', rfl, hspace, hminus, hplus⟩

theorem plain (rest : Bytes) : (ds ++ rest).dropWhile isSpace = ds ++ rest ∧
    ((ds ++ rest).head? == some 45) = false ∧ ((ds ++ rest).head? == some 43) = false := by
  obtain ⟨c, ds', rfl, hspace, hminus, hplus⟩ := h.exists_cons
  exact ⟨dropWhile_cons_of_neg (by simp [hspace]), by simp [hminus], by simp [hplus]⟩

theorem not_mark (hb : b = 16) : hasHexMark (ds ++ rest) = false := by
  rw [h.alone hb, append_nil]
  rcases ds with _ | ⟨c, _ | ⟨d, ds⟩⟩
  · rfl
  · simp [hasHexMark]
  · have hd := h.digits d (mem_cons_of_mem _ mem_cons_self)
    rw [isDigitIn, Bool.and_eq_true] at hd
    obtain ⟨-, -, -, hx, hX⟩ := plain_of_isXDigit d hd.1
    simp [hasHexMark, hx, hX]

end Numeral

theorem length_printPadded {w : Nat} (hn : n < 10 ^ (w + 1)) : (printPadded (w + 1) n).length = w + 1 := by
  have := length_digitsFuel_le (n + 1) hn
  rw [printPadded, length_leftpad, printNat]
  omega

theorem valueIn_printPadded (w n : Nat) : valueIn 10 (printPadded w n) = n := by
  have hzeros : ∀ k, (List.replicate k (48 : UInt8)).foldl (fun n d => 10 * n + hexValue d) 0 = 0 := by
    intro k
    induction k with
    | zero => rfl
    | succ k ih => exact ih
  rw [printPadded, List.leftpad, valueIn, foldl_append, hzeros]
  exact valueIn_digitsFuel (by omega) (by omega) (Nat.lt_succ_self n)

theorem numeral_printPadded (w n : Nat) : Numeral 10 (printPadded w n) [] := by
  refine ⟨append_ne_nil_of_right_ne_nil _ (printNat_ne_nil 10 n), fun c hc => ?_, nofun, nofun⟩
  rcases mem_append.mp hc with hc | hc
  · rw [eq_of_mem_replicate hc]
    decide
  · exact isDigitIn_of_mem_digitsFuel (by omega) (by omega) c hc

/-- A numeral that `sscanf` reads.  With a width, the field ends before `rest` does. -/
theorem scanUnsigned_numeral {ds rest' : Bytes} (width : Option Nat) (rest : Bytes)
    (h : Numeral b ds rest')
    (hfield : (ds ++ rest).take (width.getD (ds ++ rest).length) = ds ++ rest') :
    scanUnsigned b width (ds ++ rest) =
      some (UInt64.ofNat (min (valueIn b ds) (2 ^ 64 - 1)), rest) := by
  have hmark : ¬ (b = 16 ∧ hasHexMark (ds ++ rest') = true) := fun hm => by
    rw [h.not_mark hm.1] at hm
    cases hm.2
  rw [scanUnsigned]
  simp only [h.plain, hfield]
  simp [hmark, h.takeWhile_eq, h.ne_nil]

theorem scanUnsigned_eq {ds rest' : Bytes} (width : Option Nat) (rest : Bytes) (h : Numeral b ds rest')
    (hfield : (ds ++ rest).take (width.getD (ds ++ rest).length) = ds ++ rest')
    (hlt : valueIn b ds < 2 ^ 64) :
    scanUnsigned b width (ds ++ rest) = some (UInt64.ofNat (valueIn b ds), rest) := by
  rw [scanUnsigned_numeral width rest h hfield, Nat.min_eq_left (by omega)]

theorem valueIn_printNat (hb : 2 ≤ b) (hb' : b ≤ 16) (n : Nat) : valueIn b (printNat b n) = n :=
  valueIn_digitsFuel hb hb' (Nat.lt_succ_self n)

theorem scanUnsigned_printNat (hn : n < 2 ^ 64) {rest : Bytes}
    (hstops : ∀ c, rest.head? = some c → isDigitIn 10 c = false) :
    scanUnsigned 10 none (printNat 10 n ++ rest) = some (UInt64.ofNat n, rest) := by
  have hval := valueIn_printNat (b := 10) (by omega) (by omega) n
  have h : Numeral 10 (printNat 10 n) rest := numeral_printNat (by omega) (by omega) hstops nofun
  rw [scanUnsigned_eq none _ h take_length (hval.symm ▸ hn), hval]

theorem scanUnsigned_decimal (hn : n < 2 ^ 64) (hc : isDigitIn 10 c = false) (rest : Bytes) :
    scanUnsigned 10 none (printNat 10 n ++ c :: rest) = some (UInt64.ofNat n, c :: rest) :=
  scanUnsigned_printNat hn fun _ hc' => some.inj hc' ▸ hc

/-- A numeral that `%jd` reads. -/
theorem scanSigned_numeral {ds rest : Bytes} (h : Numeral 10 ds rest) :
    scanSigned (ds ++ rest) = some (Int64.ofNat (min (valueIn 10 ds) (2 ^ 63 - 1)), rest) := by
  rw [scanSigned]
  simp only [h.plain]
  simp [h.takeWhile_eq, h.ne_nil]

/-- `%X` reads a number at the end. -/
theorem scanUnsigned_hex (hn : n < 2 ^ 64) :
    scanUnsigned 16 none (printNat 16 n) = some (UInt64.ofNat n, []) := by
  have hval := valueIn_printNat (b := 16) (by omega) le_rfl n
  have h : Numeral 16 (printNat 16 n) [] := numeral_printNat (by omega) le_rfl nofun fun _ => rfl
  have := scanUnsigned_eq none [] h take_length (hval.symm ▸ hn)
  rwa [append_nil, hval] at this

theorem scanUnsigned_padded {w : Nat} (hn : n < 10 ^ (w + 1)) (hn' : n < 2 ^ 64) (rest : Bytes) :
    scanUnsigned 10 (some (w + 1)) (printPadded (w + 1) n ++ rest) =
      some (UInt64.ofNat n, rest) := by
  have hval := valueIn_printPadded (w + 1) n
  have hfield : (printPadded (w + 1) n ++ rest).take (w + 1) = printPadded (w + 1) n ++ [] := by
    rw [take_append_of_le_length (length_printPadded hn).ge, append_nil]
    exact take_of_length_le (length_printPadded hn).le
  rw [scanUnsigned_eq (some (w + 1)) rest (numeral_printPadded (w + 1) n) hfield (hval.symm ▸ hn'), hval]

theorem strtoulIn_hex (hn : n < 2 ^ 64) :
    strtoulIn 16 (48 :: 120 :: printNat 16 n) = some (UInt64.ofNat n) := by
  have h : Numeral 16 (printNat 16 n) [] := numeral_printNat (by omega) le_rfl nofun fun _ => rfl
  have hval := valueIn_printNat (b := 16) (by omega) le_rfl n
  have htake := h.takeWhile_eq
  rw [append_nil] at htake
  obtain ⟨c, ds, hds, -⟩ := h.exists_cons
  have hc := h.digits c (by rw [hds]; exact mem_cons_self)
  rw [isDigitIn, Bool.and_eq_true] at hc
  have hmark : hasHexMark (48 :: 120 :: printNat 16 n) = true := by
    rw [hds]
    simp [hasHexMark, hc.1]
  have hskip : (48 :: 120 :: printNat 16 n).dropWhile isSpace = 48 :: 120 :: printNat 16 n := rfl
  rw [strtoulIn, numberIn]
  simp only [hskip]
  simpa [hmark, htake, hval] using hn

theorem head_digitsFuel_ne (hb : 2 ≤ b) (hb' : b ≤ 16) {fuel : Nat} (hf : n < fuel) (hn : n ≠ 0) :
    (digitsFuel b fuel n).head? ≠ some 48 := by
  induction fuel generalizing n with
  | zero => exact nofun
  | succ fuel ih =>
    rw [digitsFuel]
    split
    · have hzero : ∀ m < 16, hexDigit m = 48 → m = 0 := by decide
      intro h
      exact hn (hzero n (by omega) (some.inj h))
    · have hlt : n / b < n := Nat.div_lt_self (by omega) (by omega)
      have hdiv : n / b ≠ 0 := Nat.div_ne_zero_iff.mpr ⟨by omega, by omega⟩
      obtain ⟨fuel, rfl⟩ : ∃ k, fuel = k + 1 := ⟨fuel - 1, by omega⟩
      rw [head?_append_of_ne_nil _ (digitsFuel_ne_nil b fuel _)]
      exact ih (by omega) hdiv

theorem strtoulIn_decimal (hn : n < 2 ^ 64) (hzero : n ≠ 0) :
    strtoulIn 0 (printNat 10 n) = some (UInt64.ofNat n) := by
  have h : Numeral 10 (printNat 10 n) [] := numeral_printNat (by omega) (by omega) nofun nofun
  have hval := valueIn_printNat (b := 10) (by omega) (by omega) n
  have htake := h.takeWhile_eq
  rw [append_nil] at htake
  obtain ⟨c, ds, hds, hspace, hminus, hplus⟩ := h.exists_cons
  have hc : c ≠ 48 := fun hc => by
    refine head_digitsFuel_ne (b := 10) (by omega) (by omega) (Nat.lt_succ_self n) hzero ?_
    rw [← printNat, hds, hc]
    rfl
  rw [hds] at htake hval ⊢
  rw [strtoulIn, numberIn]
  have hskip : (c :: ds).dropWhile isSpace = c :: ds := by
    rw [dropWhile_cons_of_neg (by simp [hspace])]
  have hmark : hasHexMark (c :: ds) = false := by simp [hasHexMark, hc]
  simp only [hskip]
  simpa [hminus, hplus, hmark, hc, htake, hval] using hn

/-! ## Base ten -/

theorem isDigitIn_ten : isDigitIn 10 = isDigit := funext (forall_byte (by decide +kernel))

theorem hexValue_of_isDigit : ∀ c, isDigit c = true → hexValue c = c.toNat - 48 :=
  forall_byte (by decide +kernel)

theorem ofDigits_eq_valueIn {ds : Bytes} (h : ∀ c ∈ ds, isDigit c = true) :
    ofDigits ds = valueIn 10 ds := by
  have hfold : ∀ (ds : Bytes) (k : Nat), (∀ c ∈ ds, isDigit c = true) →
      ds.foldl (fun n d => 10 * n + (d.toNat - 48)) k = ds.foldl (fun n d => 10 * n + hexValue d) k := by
    intro ds
    induction ds with
    | nil => exact fun _ _ => rfl
    | cons d ds ih =>
      intro k hds
      rw [foldl_cons, foldl_cons, hexValue_of_isDigit d (hds d mem_cons_self)]
      exact ih _ fun c hc => hds c (mem_cons_of_mem d hc)
  exact hfold ds 0 h

/-! ## Decimal numbers

What is written in digits only.  A reader of numbers also takes blanks and a sign in front of them. -/

/-- A number in base ten, and nothing else. -/
structure IsDecimal (s : Bytes) : Prop where
  ne_nil : s ≠ []
  digits : ∀ c ∈ s, isDigit c = true

instance (s : Bytes) : Decidable (IsDecimal s) :=
  decidable_of_iff (s ≠ [] ∧ s.all isDigit = true)
    ⟨fun h => ⟨h.1, all_eq_true.mp h.2⟩, fun h => ⟨h.1, all_eq_true.mpr h.2⟩⟩

/-- The text does not go on with a digit. -/
def Stops (rest : Bytes) : Prop := ∀ c, rest.head? = some c → isDigit c = false

theorem stops_nil : Stops [] := nofun

theorem stops_cons (h : isDigit c = false) (s : Bytes) : Stops (c :: s) := fun _ hd => some.inj hd ▸ h

namespace IsDecimal

variable {ds : Bytes} (h : IsDecimal ds)

include h

theorem notMem (hc : isDigit c = false) : c ∉ ds :=
  fun hmem => Bool.false_ne_true (hc.symm.trans (h.digits c hmem))

theorem numeral {rest : Bytes} (hrest : Stops rest) : Numeral 10 ds rest :=
  ⟨h.ne_nil, by rw [isDigitIn_ten]; exact h.digits, by rw [isDigitIn_ten]; exact hrest, nofun⟩

theorem scanSigned_eq {rest : Bytes} (hrest : Stops rest) :
    scanSigned (ds ++ rest) = some (Int64.ofNat (min (ofDigits ds) (2 ^ 63 - 1)), rest) := by
  rw [scanSigned_numeral (h.numeral hrest), ofDigits_eq_valueIn h.digits]

theorem scanUnsigned_eq {rest : Bytes} (hrest : Stops rest) : scanUnsigned 10 none (ds ++ rest) =
      some (UInt64.ofNat (min (ofDigits ds) (2 ^ 64 - 1)), rest) := by
  rw [scanUnsigned_numeral none rest (h.numeral hrest) take_length, ofDigits_eq_valueIn h.digits]

theorem takeWhile_eq : ds.takeWhile isDigit = ds := takeWhile_eq_self_iff.mpr h.digits

theorem plain : ds.dropWhile isSpace = ds ∧
    (ds.head? == some 45) = false ∧ (ds.head? == some 43) = false := by
  have hds : Numeral 10 ds [] := h.numeral stops_nil
  have hplain := hds.plain []
  rwa [append_nil] at hplain

theorem strtoul_append {rest : Bytes} (hrest : Stops rest) : strtoul (ds ++ rest) =
    if 2 ^ 64 ≤ ofDigits ds then none else some (UInt64.ofNat (ofDigits ds)) := by
  rw [strtoul]
  simp only [(h.numeral hrest).plain rest]
  simp [takeWhile_append_stop h.digits hrest]

theorem map_strtoul_eq_some {rest : Bytes} (hrest : Stops rest) {n : Nat} (hn : n < 2 ^ 64) :
    (strtoul (ds ++ rest)).map UInt64.toNat = some n ↔ n = ofDigits ds := by
  rw [h.strtoul_append hrest]
  split
  · exact iff_of_false (by simp) (by omega)
  · rename_i hlt
    rw [map_some, some_inj, UInt64.toNat_ofNat_of_lt' (Nat.not_le.mp hlt)]
    exact eq_comm

theorem strtoul_eq : strtoul ds =
    if 2 ^ 64 ≤ ofDigits ds then none else some (UInt64.ofNat (ofDigits ds)) := by
  rw [← h.strtoul_append stops_nil, append_nil]

theorem strtol_eq (hlt : ofDigits ds < 2 ^ 63) : strtol ds = ofDigits ds := by
  have hmin : min (ofDigits ds) 9223372036854775807 = ofDigits ds := by omega
  rw [strtol]
  simp only [h.plain]
  simp [h.takeWhile_eq, hmin]

end IsDecimal

theorem isDecimal_printNat (n : Nat) : IsDecimal (printNat 10 n) :=
  ⟨printNat_ne_nil 10 n, by rw [← isDigitIn_ten]; exact isDigitIn_of_mem_digitsFuel (by omega) (by omega)⟩

theorem ofDigits_printNat (n : Nat) : ofDigits (printNat 10 n) = n := by
  rw [ofDigits_eq_valueIn (isDecimal_printNat n).digits, valueIn_printNat (by omega) (by omega)]

/-- Blanks or a sign in front of a number. -/
structure Padded (s : Bytes) : Prop where
  /-- The blanks, the first other character, and the text behind it. -/
  split : ∃ w c t, s = w ++ c :: t ∧ (∀ b ∈ w, isSpace b = true) ∧
    (c = 45 ∨ c = 43 ∨ isDigit c = true)
  head : ∀ c, s.head? = some c → isDigit c = false

/-- Where there is a number behind blanks and a sign, it is a decimal number or has them in front. -/
theorem isDecimal_or_padded (h : ((s.dropWhile isSpace).drop
      (if (s.dropWhile isSpace).head? == some 45 || (s.dropWhile isSpace).head? == some 43
        then 1 else 0)).takeWhile isDigit ≠ []) :
    (∃ ds rest, s = ds ++ rest ∧ IsDecimal ds ∧ Stops rest) ∨ Padded s := by
  by_cases hhead : ∃ c, s.head? = some c ∧ isDigit c = true
  · obtain ⟨c, hc, hdigit⟩ := hhead
    refine .inl ⟨s.takeWhile isDigit, s.dropWhile isDigit, takeWhile_append_dropWhile.symm,
      ⟨?_, fun d hd => mem_takeWhile_imp hd⟩, ?_⟩
    · cases s with
      | nil => cases hc
      | cons d s =>
        simp_all
    · intro d hd
      have := head?_dropWhile_not isDigit s
      rw [hd] at this
      exact this
  · refine .inr ⟨?_, fun c hc => Bool.eq_false_iff.mpr fun hd => hhead ⟨c, hc, hd⟩⟩
    cases hs : s.dropWhile isSpace with
    | nil =>
      rw [hs] at h
      exact absurd takeWhile_nil h
    | cons c t =>
      refine ⟨s.takeWhile isSpace, c, t, ?_, fun b hb => mem_takeWhile_imp hb, ?_⟩
      · rw [← hs, takeWhile_append_dropWhile]
      · rw [hs] at h
        by_cases hminus : c = 45
        · exact .inl hminus
        · by_cases hplus : c = 43
          · exact .inr (.inl hplus)
          · simp_all

theorem scanSigned_cases {rest : Bytes} {n : Int64} (h : scanSigned s = some (n, rest)) :
    (∃ ds, s = ds ++ rest ∧ IsDecimal ds ∧ Stops rest) ∨ Padded s := by
  have hne : _ ≠ [] := fun hnil => by
    rw [scanSigned, if_pos hnil] at h
    cases h
  rw [isDigitIn_ten] at hne
  rcases isDecimal_or_padded hne with ⟨ds, rest', rfl, hds, hrest⟩ | hpadded
  · rw [hds.scanSigned_eq hrest, some.injEq, Prod.mk.injEq] at h
    exact .inl ⟨ds, by rw [h.2], hds, h.2 ▸ hrest⟩
  · exact .inr hpadded

theorem scanUnsigned_cases {rest : Bytes} {n : UInt64} (h : scanUnsigned 10 none s = some (n, rest)) :
    (∃ ds, s = ds ++ rest ∧ IsDecimal ds ∧ Stops rest) ∨ Padded s := by
  have hne : ((s.dropWhile isSpace).drop
      (if (s.dropWhile isSpace).head? == some 45 || (s.dropWhile isSpace).head? == some 43
        then 1 else 0)).takeWhile isDigit ≠ [] := fun hnil => by
    rw [← isDigitIn_ten] at hnil
    simp only [scanUnsigned, getD_none, take_length, Nat.reduceEqDiff, false_and,
      if_false, Nat.add_zero, hnil, if_true] at h
    cases h
  rcases isDecimal_or_padded hne with ⟨ds, rest', rfl, hds, hrest⟩ | hpadded
  · rw [hds.scanUnsigned_eq hrest, some.injEq, Prod.mk.injEq] at h
    exact .inl ⟨ds, by rw [h.2], hds, h.2 ▸ hrest⟩
  · exact .inr hpadded

/-! ## Constants

What denotes a number from its first character to its last: digits in base ten, in base eight if the
first one is zero, or in base sixteen behind `0x`. -/

/-- The base that the beginning of a constant decides. -/
def baseOf (s : Bytes) : Nat := if hasHexMark s then 16 else if s.head? == some 48 then 8 else 10

/-- A constant without `0x`. -/
def digitsOf (s : Bytes) : Bytes := if hasHexMark s then s.drop 2 else s

/-- The number that a constant denotes. -/
def constant (s : Bytes) : Option Nat :=
  if digitsOf s ≠ [] ∧ (digitsOf s).all (isDigitIn (baseOf s)) = true then
    some (valueIn (baseOf s) (digitsOf s))
  else none

/-- The number that a constant denotes, which may have a minus sign. -/
def signedConstant (s : Bytes) : Option Int :=
  if s.head? = some 45 then (constant s.tail).map fun n : Nat => -(n : Int)
  else (constant s).map fun n : Nat => (n : Int)

theorem isDigit_of_isDigitIn (hb : b ≤ 10) (h : isDigitIn b c = true) : isDigit c = true := by
  rw [← isDigitIn_ten]
  rw [isDigitIn, Bool.and_eq_true, decide_eq_true_eq] at h ⊢
  exact ⟨h.1, by omega⟩

/-- A constant starts with a digit, and is no more than its digits. -/
theorem constant_eq_some (h : constant s = some n) : (∃ c t, s = c :: t ∧ isDigit c = true) ∧
      (digitsOf s).takeWhile (isDigitIn (baseOf s)) = digitsOf s ∧
      valueIn (baseOf s) (digitsOf s) = n := by
  rw [constant] at h
  split at h
  · rename_i hs
    obtain ⟨hne, hall⟩ := hs
    refine ⟨?_, takeWhile_eq_self_iff.mpr (all_eq_true.mp hall), some.inj h⟩
    by_cases hmark : hasHexMark s = true
    · cases s with
      | nil => cases hmark
      | cons c t =>
        simp only [hasHexMark, head?_cons, Bool.and_eq_true, beq_iff_eq, some.injEq] at hmark
        exact ⟨c, t, rfl, by rw [hmark.1.1]; decide⟩
    · have hbase : baseOf s ≤ 10 := by
        rw [baseOf, if_neg hmark]
        split <;> omega
      rw [digitsOf, if_neg hmark] at hne hall
      obtain ⟨c, t, rfl⟩ := exists_cons_of_ne_nil hne
      exact ⟨c, t, rfl, isDigit_of_isDigitIn hbase (all_eq_true.mp hall c mem_cons_self)⟩
  · cases h

/-- What `strtoul` makes of a text without blanks and a sign, when the text decides the base. -/
def leading (s : Bytes) : Nat :=
  valueIn (baseOf s) ((digitsOf s).takeWhile (isDigitIn (baseOf s)))

theorem leading_constant (h : constant s = some n) : leading s = n := by
  obtain ⟨-, htake, hval⟩ := constant_eq_some h
  rw [leading, htake, hval]

theorem digitsOf_eq (s : Bytes) :
    (if baseOf s = 16 ∧ hasHexMark s = true then s.drop 2 else s) = digitsOf s := by
  by_cases hmark : hasHexMark s = true
  · simp [baseOf, digitsOf, hmark]
  · simp [digitsOf, hmark]

theorem numberIn_plain (hspace : isSpace c = false) (hminus : c ≠ 45)
    (hplus : c ≠ 43) : numberIn 0 (c :: s) = (false, leading (c :: s)) := by
  have hskip : (c :: s).dropWhile isSpace = c :: s := dropWhile_cons_of_neg (by simp [hspace])
  rw [leading, ← digitsOf_eq, numberIn]
  simp only [hskip]
  simp [hminus, hplus, baseOf]

theorem numberIn_minus (s : Bytes) : numberIn 0 (45 :: s) = (true, leading s) := by
  have hskip : (45 :: s).dropWhile isSpace = 45 :: s := rfl
  rw [leading, ← digitsOf_eq, numberIn]
  simp only [hskip]
  simp [baseOf]

/-- **A constant is read as the number it denotes.** -/
theorem numberIn_constant (h : constant s = some n) : numberIn 0 s = (false, n) := by
  obtain ⟨⟨c, t, rfl, hc⟩, -⟩ := constant_eq_some h
  rw [← isDigitIn_ten, isDigitIn, Bool.and_eq_true] at hc
  obtain ⟨⟨hspace, -⟩, hminus, hplus, -, -⟩ := plain_of_isXDigit c hc.1
  rw [numberIn_plain hspace hminus hplus, leading_constant h]

theorem numberIn_neg_constant (h : constant s = some n) : numberIn 0 (45 :: s) = (true, n) := by
  rw [numberIn_minus, leading_constant h]

/-- Digits in base sixteen, read in that base. -/
theorem numberIn_hex {ds : Bytes} (h : Numeral 16 ds []) : numberIn 16 ds = (false, valueIn 16 ds) := by
  have htake := h.takeWhile_eq
  have hmark := h.not_mark rfl
  have hplain := h.plain []
  rw [append_nil] at htake hmark hplain
  rw [numberIn]
  simp only [hplain]
  simp [hmark, htake]

end LibAudit
