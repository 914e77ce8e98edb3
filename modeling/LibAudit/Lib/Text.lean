import Mathlib.Data.List.Basic
import LibAudit.Lib.CString

/-!
# Words and hexadecimal digits

`words sep s` are the pieces of `s` between separators, without the empty ones.  A separator cuts:
the words of `a ++ sep :: b` are those of `a` and those of `b`.

`hexEncode` writes every byte as two upper case digits, and `hexDecode` reads pairs of digits; a
missing second digit counts as 0, and so does anything that is not a digit.

`takeThrough` is how far a loop over a list comes that stops at a failure.
-/

open List

/-! ## Loops that stop -/

/-- The elements up to the first whose number is not `ok`, and that one. -/
def takeThrough {α : Type} (ok : Nat → Bool) : List α → List α
  | [] => []
  | a :: l => a :: if ok 0 then takeThrough (fun n => ok (n + 1)) l else []

/-- These are all of them if only the last one may fail. -/
theorem takeThrough_eq_self_iff {α : Type} (ok : Nat → Bool) (l : List α) :
    takeThrough ok l = l ↔ ∀ n, n + 1 < l.length → ok n = true := by
  induction l generalizing ok with
  | nil => exact iff_of_true rfl nofun
  | cons a l ih =>
    rw [takeThrough, cons_inj_right]
    cases l with
    | nil => exact iff_of_true (ite_self _) fun n hn => absurd hn (by simp)
    | cons b l =>
      constructor
      · intro h
        have h0 : ok 0 = true := by
          by_contra h0
          rw [if_neg h0] at h
          cases h
        rw [if_pos h0] at h
        intro n hn
        cases n with
        | zero => exact h0
        | succ n => exact (ih _).mp h n (Nat.lt_of_succ_lt_succ hn)
      · simp_all

/-! ## Cutting at the first separator -/

section Cut

variable {sep : UInt8} {a : Bytes}

theorem takeWhile_append_of_notMem (h : sep ∉ a) (b : Bytes) :
    (a ++ b).takeWhile (· != sep) = a ++ b.takeWhile (· != sep) :=
  takeWhile_append_of_pos fun x hx => by simpa using ne_of_mem_of_not_mem hx h

theorem dropWhile_append_of_notMem (h : sep ∉ a) (b : Bytes) :
    (a ++ b).dropWhile (· != sep) = b.dropWhile (· != sep) :=
  dropWhile_append_of_pos fun x hx => by simpa using ne_of_mem_of_not_mem hx h

theorem takeWhile_append_cons (h : sep ∉ a) (b : Bytes) : (a ++ sep :: b).takeWhile (· != sep) = a := by
  rw [takeWhile_append_of_notMem h, takeWhile_cons_of_neg (by simp), append_nil]

theorem dropWhile_append_cons (h : sep ∉ a) (b : Bytes) :
    (a ++ sep :: b).dropWhile (· != sep) = sep :: b := by
  rw [dropWhile_append_of_notMem h, dropWhile_cons_of_neg (by simp)]

end Cut

/-! ## The longest run of certain characters -/

section Run

variable {p : UInt8 → Bool} {a b : Bytes}

theorem takeWhile_append_stop (ha : ∀ c ∈ a, p c = true) (hb : ∀ c, b.head? = some c → p c = false) :
    (a ++ b).takeWhile p = a := by
  rw [takeWhile_append_of_pos ha]
  cases b with
  | nil => rw [takeWhile_nil, append_nil]
  | cons c b => rw [takeWhile_cons_of_neg (by simp [hb c rfl]), append_nil]

theorem dropWhile_append_stop (ha : ∀ c ∈ a, p c = true) (hb : ∀ c, b.head? = some c → p c = false) :
    (a ++ b).dropWhile p = b := by
  rw [dropWhile_append_of_pos ha]
  cases b with
  | nil => rfl
  | cons c b => exact dropWhile_cons_of_neg (by simp [hb c rfl])

/-- A text is cut in one way only behind the run. -/
theorem append_stop_inj {a' b' : Bytes} (h : a ++ b = a' ++ b') (ha : ∀ c ∈ a, p c = true)
    (ha' : ∀ c ∈ a', p c = true) (hb : ∀ c, b.head? = some c → p c = false)
    (hb' : ∀ c, b'.head? = some c → p c = false) : a = a' ∧ b = b' := by
  have htake := takeWhile_append_stop ha hb
  have hdrop := dropWhile_append_stop ha hb
  rw [h] at htake hdrop
  exact ⟨htake.symm.trans (takeWhile_append_stop ha' hb'), hdrop.symm.trans (dropWhile_append_stop ha' hb')⟩

end Run

/-! ## Pieces -/

theorem splitOn_append_of_notMem {α : Type} [BEq α] [LawfulBEq α] {sep : α} {a : List α}
    (h : sep ∉ a) (b : List α) : (a ++ b).splitOn sep = (b.splitOn sep).modifyHead (a ++ ·) := by
  induction a with
  | nil => exact (congrFun modifyHead_id _).symm
  | cons c a ih =>
    rw [mem_cons, not_or] at h
    have hc : ¬ (c == sep) = true := fun hc => h.1 (eq_of_beq hc).symm
    rw [List.splitOn] at ih ⊢
    rw [cons_append, splitOnP_cons_eq_if_modifyHead, if_neg hc, ih h.2, modifyHead_modifyHead]
    rfl

/-! ## Words -/

/-- The non-empty pieces of `s` between occurrences of `sep`. -/
def words (sep : UInt8) (s : Bytes) : List Bytes := (s.splitOn sep).filter (· ≠ [])

/-- What holds of a piece, and of a piece and a separator in front of a text if it holds of the text, holds
of every text. -/
theorem pieces_induction (sep : UInt8) {P : Bytes → Prop} (last : ∀ w, sep ∉ w → P w)
    (cons : ∀ w s, sep ∉ w → P s → P (w ++ sep :: s)) (s : Bytes) : P s := by
  induction hn : s.length using Nat.strong_induction_on generalizing s with
  | _ n ih =>
    by_cases hmem : sep ∈ s
    · obtain ⟨w, s, rfl, hw⟩ := eq_append_cons_of_mem hmem
      exact cons w s hw (ih s.length (by simp [← hn]; omega) s rfl)
    · exact last s hmem

/-- A separator cuts. -/
theorem words_append_cons (sep : UInt8) (a b : Bytes) :
    words sep (a ++ sep :: b) = words sep a ++ words sep b := by
  rw [words, splitOn_append_cons_self, filter_append]
  rfl

theorem words_nil (sep : UInt8) : words sep [] = [] := rfl

theorem words_cons_self (sep : UInt8) (s : Bytes) : words sep (sep :: s) = words sep s :=
  words_append_cons sep [] s

theorem words_of_notMem {sep : UInt8} {s : Bytes} (h : sep ∉ s) (hne : s ≠ []) : words sep s = [s] := by
  rw [words, splitOn_eq_singleton h]
  simp [hne]

/-- Separators in front make no difference. -/
theorem words_dropWhile (sep : UInt8) (s : Bytes) :
    words sep (s.dropWhile (· == sep)) = words sep s := by
  induction s with
  | nil => rfl
  | cons c s ih =>
    rw [dropWhile_cons]
    split
    · rename_i hc
      rw [ih, eq_of_beq hc, words_cons_self]
    · rfl

/-- A text without separators is its only word. -/
theorem eq_of_mem_words {sep : UInt8} {s w : Bytes} (hs : sep ∉ s) (h : w ∈ words sep s) : w = s := by
  by_cases hnil : s = []
  · rw [hnil, words_nil] at h
    cases h
  · rwa [words_of_notMem hs hnil, mem_singleton] at h

/-- A word is a part of the text. -/
theorem infix_of_mem_words {sep : UInt8} {s w : Bytes} (h : w ∈ words sep s) : w <:+: s := by
  induction s using pieces_induction sep with
  | last v hv => exact eq_of_mem_words hv h ▸ infix_rfl
  | cons v s hv ih =>
    rw [words_append_cons, mem_append] at h
    rcases h with hmem | hmem
    · rw [eq_of_mem_words hv hmem]
      exact (prefix_append _ _).isInfix
    · exact (ih hmem).trans ((suffix_cons _ _).trans (suffix_append _ _)).isInfix

theorem of_mem_words {sep : UInt8} {s w : Bytes} (h : w ∈ words sep s) : w ≠ [] ∧ w ⊆ s := by
  refine ⟨?_, (infix_of_mem_words h).subset⟩
  rw [words, mem_filter] at h
  simpa using h.2

/-- What is not a separator is in a word. -/
theorem exists_mem_words {sep b : UInt8} {s : Bytes} (hb : b ∈ s) (hne : b ≠ sep) :
    ∃ w ∈ words sep s, b ∈ w := by
  induction s using pieces_induction sep with
  | last w hw =>
    rw [words_of_notMem hw (ne_nil_of_mem hb)]
    exact ⟨w, mem_singleton_self w, hb⟩
  | cons w s hw ih =>
    rw [words_append_cons]
    rcases mem_append.mp hb with hmem | hmem
    · have hw' := words_of_notMem hw (ne_nil_of_mem hmem)
      exact ⟨w, mem_append_left _ (by rw [hw']; exact mem_singleton_self w), hmem⟩
    · grind

/-- There is no separator in a word. -/
theorem notMem_of_mem_words {sep : UInt8} {s w : Bytes} (h : w ∈ words sep s) : sep ∉ w := by
  induction s using pieces_induction sep with
  | last v hv => exact eq_of_mem_words hv h ▸ hv
  | cons v s hv ih =>
    rw [words_append_cons, mem_append] at h
    rcases h with hmem | hmem
    · exact eq_of_mem_words hv hmem ▸ hv
    · exact ih hmem

theorem words_intercalate {sep : UInt8} {ws : List Bytes} (h : ∀ w ∈ ws, w ≠ [] ∧ sep ∉ w) :
    words sep ([sep].intercalate ws) = ws := by
  by_cases hnil : ws = []
  · rw [hnil]
    rfl
  · rw [words, splitOn_intercalate sep (fun w hw => (h w hw).2) hnil, filter_eq_self]
    exact fun w hw => by simpa using (h w hw).1

/-! ## Hexadecimal digits -/

/-- The digits. -/
def hexDigits : Bytes := ascii "0123456789ABCDEF"

/-- The digit for a number below 16. -/
def hexDigit (n : Nat) : UInt8 := hexDigits.getD n 0

/-- The number a digit stands for; 0 if it is none. -/
def hexValue (b : UInt8) : Nat := (hexDigits.findIdx (· == upcase b)) % 16

/-- `isxdigit`. -/
def isXDigit (b : UInt8) : Bool := hexDigits.contains (upcase b)

/-- Two digits for each byte. -/
def hexEncode (bs : Bytes) : Bytes :=
  bs.flatMap fun b => [hexDigit (b.toNat / 16), hexDigit (b.toNat % 16)]

/-- One byte for every two digits. -/
def hexDecode : Bytes → Bytes
  | [] => []
  | [a] => [UInt8.ofNat (16 * hexValue a)]
  | a :: b :: rest => UInt8.ofNat (16 * hexValue a + hexValue b) :: hexDecode rest

theorem hexValue_hexDigit : ∀ n < 16, hexValue (hexDigit n) = n := by decide

theorem isXDigit_hexDigit : ∀ n < 16, isXDigit (hexDigit n) = true := by decide

@[simp] theorem hexEncode_nil : hexEncode [] = [] := rfl

theorem hexEncode_cons (b : UInt8) (bs : Bytes) : hexEncode (b :: bs) =
      hexDigit (b.toNat / 16) :: hexDigit (b.toNat % 16) :: hexEncode bs := rfl

theorem length_hexEncode (bs : Bytes) : (hexEncode bs).length = 2 * bs.length := by
  induction bs with
  | nil => rfl
  | cons b bs ih =>
    rw [hexEncode_cons, length_cons, length_cons, ih, length_cons]
    omega

/-- **What is written is read back.** -/
theorem hexDecode_hexEncode (bs : Bytes) : hexDecode (hexEncode bs) = bs := by
  induction bs with
  | nil => rfl
  | cons b bs ih =>
    have hb : b.toNat < 256 := b.toNat_lt
    rw [hexEncode_cons, hexDecode, ih, hexValue_hexDigit _ (by omega),
      hexValue_hexDigit _ (by omega), Nat.div_add_mod, UInt8.ofNat_toNat]

/-- Everything in an encoding is a digit. -/
theorem exists_of_mem_hexEncode {bs : Bytes} {d : UInt8} (h : d ∈ hexEncode bs) :
    ∃ n < 16, d = hexDigit n := by
  rw [hexEncode, mem_flatMap] at h
  obtain ⟨b, -, hd⟩ := h
  have hb : b.toNat < 256 := b.toNat_lt
  grind

theorem hexDigit_zero_zero {b : UInt8} (h : hexDigit (b.toNat / 16) = 48)
    (h' : hexDigit (b.toNat % 16) = 48) : b = 0 := by
  have hb : b.toNat < 256 := b.toNat_lt
  have hzero : ∀ n < 16, hexDigit n = 48 → n = 0 := by decide
  have h₁ := hzero _ (by omega) h
  have h₂ := hzero _ (by omega) h'
  exact UInt8.toNat_inj.mp (by rw [UInt8.toNat_zero]; omega)
