import LibAudit.Lib.Memory
import LibAudit.Logging.Encode

/-!
# Escaping interpreted values: `interpret.c`

An interpretation may hold bytes that a terminal or a shell would act on.  Depending on the escape mode,
control characters are replaced by their octal digits, and a backslash is put in front of what means
something to a shell.

Several keys are one text with a separator between them, which must stay as it is.  `key_escape` therefore
goes through the text, copies or escapes every component into the destination, and puts the separator
behind it.  The terminating NUL is only written behind a component, so there is none if the text is empty
or ends in a separator.
-/

namespace LibAudit.Auparse

open Logging List Option

/-! ## Escaping one text -/

/-- `auparse_esc_t`. -/
inductive Esc where
  | raw | tty | shell | shellQuote
  deriving DecidableEq

/-- `sh_set`. -/
def shSet : Bytes := ascii "\"'`$\\!()| "

/-- `quote_set`. -/
def quoteSet : Bytes := ascii "\"'`$\\!()| ;#&*?[]<>\x7b\x7d"

/-- A backslash and the octal digits of a byte. -/
def octal (b : UInt8) : Bytes :=
  [92, (48 : UInt8) + ((b &&& 0o300) >>> 6), (48 : UInt8) + ((b &&& 0o070) >>> 3),
    (48 : UInt8) + (b &&& 0o007)]

/-- What is written for a byte, when those in `set` get a backslash. -/
def escapeByte (set : Bytes) (b : UInt8) : Bytes :=
  if b < 32 then octal b else if b ∈ set then [92, b] else [b]

/-- `tty_escape`. -/
def ttyEscape (s : Bytes) : Bytes := s.flatMap (escapeByte [])

/-- `shell_escape`. -/
def shellEscape (s : Bytes) : Bytes := s.flatMap (escapeByte shSet)

/-- `shell_quote_escape`. -/
def shellQuoteEscape (s : Bytes) : Bytes := s.flatMap (escapeByte quoteSet)

/-- How many bytes are control characters or in `set`. -/
def countEscapes (isControl : UInt8 → Bool) (set : Bytes) (s : Bytes) : Nat :=
  s.countP fun b => isControl b || set.contains b

/-- `need_tty_escape`. -/
def needTtyEscape (s : Bytes) : Nat := countEscapes (· < 32) [] s

/-- `need_shell_escape`, which compares a plain `char`. -/
def needShellEscape (sign : CharSign) (s : Bytes) : Nat :=
  countEscapes (fun b => decide (sign.value b < 32)) shSet s

/-- `need_shell_quote_escape`. -/
def needShellQuoteEscape (s : Bytes) : Nat := countEscapes (· < 32) quoteSet s

namespace Esc

/-- `need_escaping`. -/
def needEscaping (sign : CharSign) (s : Bytes) : Esc → Nat
  | raw => 0
  | tty => needTtyEscape s
  | shell => needShellEscape sign s
  | shellQuote => needShellQuoteEscape s

/-- `escape`, into a block from its `i`-th byte on. -/
def escape (s : Bytes) (dest : Bytes) (i : Nat) : Esc → Option Bytes
  | raw => some dest
  | tty => Memory.store dest i (ttyEscape s ++ [0])
  | shell => Memory.store dest i (shellEscape s ++ [0])
  | shellQuote => Memory.store dest i (shellQuoteEscape s ++ [0])

end Esc

/-! ## Several keys -/

/-- `AUDIT_KEY_SEPARATOR`. -/
def keySeparator : UInt8 := 0x01

/-- One component is copied, by `stpcpy` if nothing in it is escaped.  Also returns the place of the NUL
behind it. -/
def copyKey (sign : CharSign) (mode : Esc) (key : Bytes) (dptr : Nat) (dest : Bytes) :
    Option (Bytes × Nat) :=
  if mode.needEscaping sign key = 0 then
    (Memory.store dest dptr (key ++ [0])).map fun dest => (dest, dptr + key.length)
  else (mode.escape key dest dptr).map fun dest => (dest, (untilNul dest).length)

/-- The loop of `key_escape`. -/
def keyEscapeFrom (sign : CharSign) (mode : Esc) : Nat → Bytes → Nat → Bytes → Option Bytes
  | _, [], _, dest => some dest
  | 0, _ :: _, _, _ => none
  | fuel + 1, b :: bs, dptr, dest => do
    let key := (b :: bs).takeWhile (· != keySeparator)
    let str := (b :: bs).dropWhile (· != keySeparator)
    let (dest, dptr) ← copyKey sign mode key dptr dest
    let tmp := str.headD 0
    let dest ← Memory.store dest dptr [tmp]
    if tmp = 0 then keyEscapeFrom sign mode fuel str dptr dest
    else keyEscapeFrom sign mode fuel (str.drop 1) (dptr + 1) dest

/-- `key_escape`. -/
def keyEscape (sign : CharSign) (mode : Esc) (orig : Bytes) (dest : Bytes) : Option Bytes :=
  keyEscapeFrom sign mode orig.length orig 0 dest

/-! ## What the modes mean -/

namespace Esc

/-- What gets a backslash. -/
def set : Esc → Bytes
  | raw | tty => []
  | shell => shSet
  | shellQuote => quoteSet

/-- What is not left as it is. -/
def escapes (mode : Esc) (b : UInt8) : Bool :=
  mode != raw && (decide (b < 32) || mode.set.contains b)

/-- A byte in this mode. -/
def encode (mode : Esc) (b : UInt8) : Bytes := if mode.escapes b then escapeByte mode.set b else [b]

/-- A text in this mode. -/
def escaped (mode : Esc) (s : Bytes) : Bytes := s.flatMap mode.encode

/-- The escaped components of a text, with the separators between them. -/
def joined (mode : Esc) (s : Bytes) : Bytes :=
  [keySeparator].intercalate ((s.splitOn keySeparator).map mode.escaped)

/-- How many bytes of the components are escaped. -/
def escapedCount (mode : Esc) (s : Bytes) : Nat :=
  s.countP fun b => b != keySeparator && mode.escapes b

variable {mode : Esc} {s : Bytes} {b : UInt8}

theorem encode_of_not_escapes (h : mode.escapes b = false) : mode.encode b = [b] := by
  rw [encode, h]
  rfl

/-- No byte of a code is a control character. -/
theorem le_of_mem_octal (b : UInt8) : ∀ c ∈ octal b, 32 ≤ c := by
  have hall : ∀ b : UInt8, (octal b).all (fun c => 32 ≤ c) = true := forall_byte (by decide +kernel)
  intro c hc
  exact of_decide_eq_true (all_eq_true.mp (hall b) c hc)

theorem eq_or_le_of_mem_encode {c : UInt8} (h : c ∈ mode.encode b) : c = b ∨ 32 ≤ c := by
  rw [encode] at h
  split at h
  · rw [escapeByte] at h
    split at h
    · exact .inr (le_of_mem_octal b c h)
    · grind
  · exact .inl (mem_singleton.mp h)

theorem le_of_mem_encode_tty {c : UInt8} (h : c ∈ tty.encode b) : 32 ≤ c := by
  by_cases hb : b < 32
  · rw [encode, if_pos (by simp [escapes, hb]), escapeByte, if_pos hb] at h
    exact le_of_mem_octal b c h
  · rcases eq_or_le_of_mem_encode h with rfl | hle
    · exact UInt8.not_lt.mp hb
    · exact hle

theorem length_encode_le (mode : Esc) (b : UInt8) :
    (mode.encode b).length ≤ 1 + 3 * (if mode.escapes b then 1 else 0) := by
  rw [encode]
  split
  · rw [escapeByte]
    split
    · simp [octal]
    · split <;> simp
  · simp

@[simp] theorem escaped_nil (mode : Esc) : mode.escaped [] = [] := rfl

/-- The text has no NUL if there was none. -/
theorem zero_notMem_escaped (h : 0 ∉ s) : 0 ∉ mode.escaped s := by
  intro hmem
  obtain ⟨b, hb, hc⟩ := mem_flatMap.mp hmem
  rcases eq_or_le_of_mem_encode hc with rfl | hle
  · exact h hb
  · exact absurd hle (by decide)

theorem escape_eq (hmode : mode ≠ raw) (s dest : Bytes) (i : Nat) :
    mode.escape s dest i = Memory.store dest i (mode.escaped s ++ [0]) := by
  have hbyte : ∀ b, mode.encode b = escapeByte mode.set b := by
    intro b
    rw [encode]
    split
    · rfl
    · rename_i hb
      simp only [escapes, bne_iff_ne.mpr hmode, Bool.true_and, Bool.or_eq_true, decide_eq_true_eq,
        contains_iff_mem, not_or] at hb
      rw [escapeByte, if_neg hb.1, if_neg hb.2]
  have htext : mode.escaped s = s.flatMap (escapeByte mode.set) := by
    rw [escaped, funext hbyte]
  rw [htext]
  cases mode with
  | raw => exact absurd rfl hmode
  | tty | shell | shellQuote => rfl

/-- A control character is one also as a plain `char`. -/
theorem value_lt_of_lt {sign : CharSign} (h : b < 32) : sign.value b < 32 := by
  have hb : b.toNat < 32 := h
  cases sign with
  | signed =>
    have hlt : b < 128 := UInt8.lt_trans h (by decide)
    simp only [CharSign.value, if_pos hlt]
    omega
  | unsigned =>
    simp only [CharSign.value]
    omega

/-- All that is escaped is counted. -/
theorem countP_escapes_le (sign : CharSign) (mode : Esc) (s : Bytes) :
    s.countP mode.escapes ≤ mode.needEscaping sign s := by
  cases mode with
  | raw => exact (countP_eq_zero.mpr fun _ _ h => Bool.noConfusion h).le
  | tty | shellQuote => exact countP_mono_left fun b _ hb => by simpa [escapes, set] using hb
  | shell =>
    refine countP_mono_left fun b _ hb => ?_
    have hb : b < 32 ∨ b ∈ shSet := by simpa [escapes, set] using hb
    simpa using hb.imp_left value_lt_of_lt

theorem escaped_eq_self {sign : CharSign} (h : mode.needEscaping sign s = 0) : mode.escaped s = s := by
  have hbyte : ∀ b ∈ s, mode.escapes b = false := by
    have hcount : s.countP mode.escapes = 0 := Nat.le_zero.mp (h ▸ countP_escapes_le sign mode s)
    simp_all
  have hmap : mode.escaped s = s.flatMap fun b => [b] :=
    flatMap_congr fun b hb => encode_of_not_escapes (hbyte b hb)
  rw [hmap, flatMap_singleton']

/-- How the components are put together again. -/
theorem joined_of_notMem (h : keySeparator ∉ s) : mode.joined s = mode.escaped s := by
  rw [joined, splitOn_eq_singleton h, map_singleton, intercalate_singleton]

theorem joined_append_cons {key : Bytes} (h : keySeparator ∉ key) (s : Bytes) :
    mode.joined (key ++ keySeparator :: s) = mode.escaped key ++ keySeparator :: mode.joined s := by
  rw [joined, splitOn_append_cons_self, splitOn_eq_singleton h, singleton_append,
    map_cons, intercalate_cons_of_ne_nil, joined, append_assoc, singleton_append]
  simp [splitOn_ne_nil]

theorem length_escaped_le (mode : Esc) (s : Bytes) :
    (mode.escaped s).length ≤ s.length + 3 * s.countP mode.escapes := by
  induction s with
  | nil => simp
  | cons b s ih =>
    have hone := length_encode_le mode b
    rw [escaped] at ih ⊢
    rw [flatMap_cons, length_append, countP_cons, length_cons]
    omega

/-- In a component, all that is escaped counts. -/
theorem escapedCount_of_notMem (h : keySeparator ∉ s) : mode.escapedCount s = s.countP mode.escapes := by
  refine countP_congr fun b hb => ?_
  have hne : b ≠ keySeparator := fun he => h (he ▸ hb)
  simp [hne]

theorem escapedCount_append_cons (key s : Bytes) :
    mode.escapedCount (key ++ keySeparator :: s) = mode.escapedCount key + mode.escapedCount s := by
  simp [escapedCount]

theorem length_joined_le (mode : Esc) (s : Bytes) :
    (mode.joined s).length ≤ s.length + 3 * mode.escapedCount s := by
  induction s using pieces_induction keySeparator with
  | last key h =>
    rw [joined_of_notMem h, escapedCount_of_notMem h]
    exact length_escaped_le mode key
  | cons key s h ih =>
    have hkey := length_escaped_le mode key
    rw [joined_append_cons h, escapedCount_append_cons, escapedCount_of_notMem h]
    simp only [length_append, length_cons]
    omega

/-- There is no NUL in it. -/
theorem zero_notMem_joined (h : 0 ∉ s) : 0 ∉ mode.joined s := by
  induction s using pieces_induction keySeparator with
  | last key hkey =>
    rw [joined_of_notMem hkey]
    exact zero_notMem_escaped h
  | cons key s hkey ih =>
    simp only [mem_append, mem_cons, not_or] at h
    rw [joined_append_cons hkey, mem_append, mem_cons, not_or, not_or]
    exact ⟨zero_notMem_escaped h.1, h.2.1, ih h.2.2⟩

end Esc

/-! ## What `key_escape` writes -/

section

variable {sign : CharSign} {mode : Esc} {front tail : Bytes}

theorem copyKey_append {key : Bytes} (hfront : 0 ∉ front) (hkey : 0 ∉ key)
    (hroom : (mode.escaped key).length + 1 ≤ tail.length) :
    copyKey sign mode key front.length (front ++ tail) =
      some (front ++ (mode.escaped key ++ 0 :: tail.drop ((mode.escaped key).length + 1)),
        (front ++ mode.escaped key).length) := by
  have hstore : Memory.store (front ++ tail) front.length (mode.escaped key ++ [0]) =
      some (front ++ (mode.escaped key ++ 0 :: tail.drop ((mode.escaped key).length + 1))) := by
    rw [Memory.store_append front (by simpa using hroom)]
    simp
  rw [copyKey]
  split
  · rename_i hneed
    rw [Esc.escaped_eq_self hneed] at hstore ⊢
    rw [hstore, length_append]
    rfl
  · rename_i hneed
    have hmode : mode ≠ .raw := by
      rintro rfl
      exact hneed rfl
    rw [Esc.escape_eq hmode, hstore, map_some, ← append_assoc,
      untilNul_append_nul (by simp [hfront, Esc.zero_notMem_escaped hkey])]

/-- The last byte ends a component. -/
def EndsInKey (s : Bytes) : Prop := ∃ b, s.getLast? = some b ∧ b ≠ keySeparator

instance (s : Bytes) : Decidable (EndsInKey s) :=
  match h : s.getLast? with
  | none => isFalse fun ⟨_, hb, _⟩ => nomatch h.symm.trans hb
  | some b =>
    if hb : b = keySeparator then
      isFalse fun ⟨_, hc, hne⟩ => hne (some.inj (h.symm.trans hc) ▸ hb)
    else isTrue ⟨b, h, hb⟩

theorem endsInKey_append_cons (key s : Bytes) : EndsInKey (key ++ keySeparator :: s) ↔ EndsInKey s := by
  rw [EndsInKey, EndsInKey, getLast?_append_cons]
  cases s with
  | nil => simp
  | cons b s => rw [getLast?_cons_cons]

theorem endsInKey_of_notMem {key : Bytes} (hkey : keySeparator ∉ key) (hne : key ≠ []) : EndsInKey key :=
  ⟨key.getLast hne, getLast?_eq_some_getLast hne, fun he => hkey (he ▸ getLast_mem hne)⟩

/-- What is in the block when the rest of the text has been gone through. -/
def filled (mode : Esc) (s tail : Bytes) : Bytes :=
  if EndsInKey s then mode.joined s ++ 0 :: tail.drop ((mode.joined s).length + 1)
  else mode.joined s ++ tail.drop (mode.joined s).length

theorem filled_append_cons {key : Bytes} (h : keySeparator ∉ key) (s tail : Bytes) :
    filled mode (key ++ keySeparator :: s) tail =
      mode.escaped key ++ keySeparator :: filled mode s (tail.drop ((mode.escaped key).length + 1)) := by
  have hlen : (mode.joined (key ++ keySeparator :: s)).length =
      (mode.escaped key).length + 1 + (mode.joined s).length := by
    rw [Esc.joined_append_cons h, length_append, length_cons]
    omega
  rw [filled, filled, hlen, Esc.joined_append_cons h, drop_drop, drop_drop, ← Nat.add_assoc]
  simp only [endsInKey_append_cons]
  split <;> simp

/-- One round: a component, and what is behind it in the text. -/
theorem keyEscapeFrom_succ (sign : CharSign) {key : Bytes} (rest : Bytes) (hkey : keySeparator ∉ key)
    (hrest : ∀ b, rest.head? = some b → b = keySeparator) (hne : key ++ rest ≠ []) (fuel : Nat)
    (hfront : 0 ∉ front) (hnul : 0 ∉ key)
    (hroom : (mode.escaped key).length + 1 ≤ tail.length) :
    keyEscapeFrom sign mode (fuel + 1) (key ++ rest) front.length (front ++ tail) =
      keyEscapeFrom sign mode fuel (rest.drop 1) ((front ++ mode.escaped key).length + 1)
        (front ++ (mode.escaped key ++ rest.headD 0 :: tail.drop ((mode.escaped key).length + 1))) := by
  have hbefore : ∀ b ∈ key, (b != keySeparator) = true := by
    intro b hb
    simpa using fun he : b = keySeparator => hkey (he ▸ hb)
  have hbehind : ∀ b, rest.head? = some b → (b != keySeparator) = false := by
    intro b hb
    simp [hrest b hb]
  have htake := takeWhile_append_stop hbefore hbehind
  have hdrop := dropWhile_append_stop hbefore hbehind
  have hstore : Memory.store (front ++ (mode.escaped key ++ 0 :: tail.drop ((mode.escaped key).length + 1)))
      (front ++ mode.escaped key).length [rest.headD 0] =
      some (front ++ (mode.escaped key ++ rest.headD 0 :: tail.drop ((mode.escaped key).length + 1))) := by
    rw [← append_assoc, Memory.store_append _ (by simp)]
    simp
  obtain ⟨b, bs, hbs⟩ := exists_cons_of_ne_nil hne
  rw [hbs, keyEscapeFrom, ← hbs, htake, hdrop, copyKey_append hfront hnul hroom]
  simp only [bind_eq_bind, bind_some, hstore]
  cases rest with
  | nil =>
    -- the NUL has been written, and the place behind it no longer matters
    rw [headD_nil, if_pos rfl, keyEscapeFrom, drop_nil, keyEscapeFrom]
  | cons c rest =>
    obtain rfl := hrest c rfl
    rw [headD_cons, if_neg (by decide), drop_one, tail_cons]

/-- **The loop**, with the components so far written to the front of the block. -/
theorem keyEscapeFrom_append {s : Bytes} (hs : 0 ∉ s) {fuel : Nat} (hfuel : s.length ≤ fuel)
    (hfront : 0 ∉ front) (hroom : (mode.joined s).length + 1 ≤ tail.length) :
    keyEscapeFrom sign mode fuel s front.length (front ++ tail) = some (front ++ filled mode s tail) := by
  induction s using pieces_induction keySeparator generalizing fuel front tail with
  | last key hkey =>
    rw [Esc.joined_of_notMem hkey] at hroom
    by_cases hne : key = []
    · subst hne
      rw [keyEscapeFrom, filled, if_neg (by decide), Esc.joined_of_notMem hkey]
      rfl
    · obtain ⟨fuel, rfl⟩ : ∃ k, fuel = k + 1 :=
        ⟨fuel - 1, by have := length_pos_iff.mpr hne; omega⟩
      have hround := keyEscapeFrom_succ sign [] hkey (by simp) (by simpa using hne) fuel hfront hs hroom
      rw [append_nil] at hround
      rw [hround, drop_nil, keyEscapeFrom, filled, if_pos (endsInKey_of_notMem hkey hne),
        Esc.joined_of_notMem hkey]
      rfl
  | cons key s hkey ih =>
    simp only [mem_append, mem_cons, not_or] at hs
    rw [Esc.joined_append_cons hkey, length_append, length_cons] at hroom
    rw [length_append, length_cons] at hfuel
    obtain ⟨fuel, rfl⟩ : ∃ k, fuel = k + 1 := ⟨fuel - 1, by omega⟩
    have hfront' : 0 ∉ front ++ mode.escaped key ++ [keySeparator] := by
      simp only [mem_append, mem_singleton, not_or]
      exact ⟨⟨hfront, Esc.zero_notMem_escaped hs.1⟩, hs.2.1⟩
    have hroom' : (mode.joined s).length + 1 ≤ (tail.drop ((mode.escaped key).length + 1)).length := by
      rw [length_drop]
      omega
    have hrest := ih hs.2.2 (Nat.le_of_lt_succ (by omega : s.length < fuel + 1)) hfront' hroom'
    rw [keyEscapeFrom_succ sign _ hkey (by simp) (by simp) fuel hfront hs.1 (by omega),
      filled_append_cons hkey]
    simpa [Nat.add_assoc] using hrest

/-- **What `key_escape` writes**, whatever the block held before. -/
theorem keyEscape_eq {orig dest : Bytes} (horig : 0 ∉ orig)
    (hroom : (mode.joined orig).length + 1 ≤ dest.length) :
    keyEscape sign mode orig dest = some (filled mode orig dest) :=
  keyEscapeFrom_append horig le_rfl not_mem_nil hroom

end

/-! ## The result -/

/-- The escaped components are in the block, joined by the separator and followed by a NUL, the rest of the
block is as it was, and no more is used of it than three bytes more for every escaped one. -/
structure WritesKeys (mode : Esc) (orig dest : Bytes) (result : Option Bytes) : Prop where
  written : result = some (mode.joined orig ++ 0 :: dest.drop ((mode.joined orig).length + 1))
  used : (mode.joined orig).length + 1 ≤ orig.length + 1 + 3 * mode.escapedCount orig

/-- **`key_escape` writes a terminated text** if its argument ends in a component, and otherwise only if a
NUL happens to be in the right place already. -/
theorem keyEscape_writesKeys_iff (sign : CharSign) (mode : Esc) (orig : CString) (dest : Bytes)
    (room : orig.strlen + 1 + 3 * mode.escapedCount orig.bytes ≤ dest.length) :
    WritesKeys mode orig.bytes dest (keyEscape sign mode orig.bytes dest) ↔
      EndsInKey orig.bytes ∨ dest[(mode.joined orig.bytes).length]? = some 0 := by
  have hused : (mode.joined orig.bytes).length + 1 ≤
      orig.bytes.length + 1 + 3 * mode.escapedCount orig.bytes := by
    have := mode.length_joined_le orig.bytes
    omega
  have hroom : (mode.joined orig.bytes).length + 1 ≤ dest.length := hused.trans room
  have heq : keyEscape sign mode orig.bytes dest = _ := keyEscape_eq orig.nulFree hroom
  by_cases hend : EndsInKey orig.bytes
  · rw [filled, if_pos hend] at heq
    exact ⟨fun _ => .inl hend, fun _ => ⟨heq, hused⟩⟩
  · rw [filled, if_neg hend, drop_eq_getElem_cons hroom] at heq
    rw [or_iff_right hend, getElem?_eq_getElem hroom, some_inj]
    constructor
    · intro h
      have hwritten := some.inj (heq.symm.trans h.written)
      exact (List.cons.inj (append_cancel_left hwritten)).1
    · intro h
      rw [h] at heq
      exact ⟨heq, hused⟩

theorem keyEscape_writesKeys_control : WritesKeys .tty [97, 1, 7] (List.replicate 7 255)
      (keyEscape .signed .tty [97, 1, 7] (List.replicate 7 255)) :=
  (keyEscape_writesKeys_iff .signed .tty ⟨[97, 1, 7], by decide⟩ (List.replicate 7 255) (by decide)).mpr
    (.inl (by decide))

/-- A separator at the end: the text is not terminated. -/
theorem trailing_separator_unterminated :
    keyEscape .signed .tty [97, 1] (List.replicate 3 255) = some [97, 1, 255] ∧
    ¬ WritesKeys .tty [97, 1] (List.replicate 3 255)
      (keyEscape .signed .tty [97, 1] (List.replicate 3 255)) := by
  refine ⟨by decide, fun h => ?_⟩
  exact absurd h.written (by decide)

end LibAudit.Auparse
