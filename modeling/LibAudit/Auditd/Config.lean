import LibAudit.Lib.Number

/-!
# Numbers in the configuration of the daemon

`tcp_client_ports` is a port or a range of ports, and `space_left` a number of megabytes or a percentage.
Both parsers look at the characters first and leave it to `strtoul` where a number ends.  So the first one
takes a text with several dashes and reads what is in front of the first and behind the last, and the
second one takes percent signs anywhere.  `MisreadPorts` and `MisreadSpace` are the texts that are taken
for a value although they are none, and `parsers_exact_iff` says that nothing else goes wrong.
-/

namespace LibAudit.Auditd

open List Option

/-! ## The parsers -/

/-- `TCP_PORT_MAX`. -/
def tcpPortMax : UInt64 := 65535

/-- The loop over the characters, which remembers what is behind the last dash; a second loop starts where
it ends. -/
def portChars (first : Bool) (sawDash : Option Bytes) : Bytes → Option (Option Bytes)
  | [] => some sawDash
  | c :: ptr =>
    if first = false ∧ c = 45 ∧ ptr ≠ [] then portChars false (some ptr) ptr
    else if isDigit c = false then none
    else portChars false sawDash ptr

/-- `tcp_client_ports_parser`: the range of ports, if the value is accepted. -/
def tcpClientPortsParser (value : Bytes) : Option (UInt32 × UInt32) := do
  let sawDash ← portChars true none value
  let minv ← strtoul value
  let maxv ← sawDash.elim (some minv) strtoul
  if tcpPortMax < minv then none
  else if tcpPortMax < maxv then none
  else if maxv < minv then none
  else some (minv.toUInt32, maxv.toUInt32)

/-- `space_left_parser`: the megabytes and the percentage, if the value is accepted. -/
def spaceLeftParser (value : Bytes) : Option (UInt64 × UInt32) :=
  if value.all (fun c => isDigit c || c == 37) then do
    -- the first percent sign is overwritten
    let i ← strtoul (value.replace 37 32)
    if 37 ∈ value then if 99 < i then none else some (0, i.toUInt32)
    else some (i, 0)
  else none

/-! ## What the texts denote -/

/-- A number in base ten. -/
abbrev Decimal := {s : Bytes // IsDecimal s}

/-- The number. -/
def Decimal.value (n : Decimal) : Nat := ofDigits n.1

/-- A port, or a range of ports. -/
inductive PortsValue
  | port (n : Decimal)
  | range (lo hi : Decimal)

/-- How it is written. -/
def PortsValue.text : PortsValue → Bytes
  | port n => n.1
  | range lo hi => lo.1 ++ 45 :: hi.1

/-- The first and the last port. -/
def PortsValue.bounds : PortsValue → Decimal × Decimal
  | port n => (n, n)
  | range lo hi => (lo, hi)

/-- The range of ports, in order and not too large. -/
def PortsValue.Denotes (x : PortsValue) (r : UInt32 × UInt32) : Prop :=
  r.1.toNat = x.bounds.1.value ∧ r.2.toNat = x.bounds.2.value ∧
    r.1.toNat ≤ r.2.toNat ∧ r.2.toNat ≤ 65535

/-- A number of megabytes, or a percentage. -/
inductive SpaceValue
  | megabytes (n : Decimal)
  | percent (n : Decimal)

/-- How it is written. -/
def SpaceValue.text : SpaceValue → Bytes
  | megabytes n => n.1
  | percent n => n.1 ++ [37]

/-- The megabytes, or a percentage that is less than 100. -/
def SpaceValue.Denotes (x : SpaceValue) (r : UInt64 × UInt32) : Prop :=
  match x with
  | megabytes n => r.1.toNat = n.value ∧ r.2.toNat = 0
  | percent n => r.1.toNat = 0 ∧ r.2.toNat = n.value ∧ r.2.toNat < 100

/-- A text that is taken for a range of ports although it is none: the empty one, and those with more than
one dash, where the number in front of the first and the one behind the last are read. -/
inductive MisreadPorts : Bytes → Prop
  | empty : MisreadPorts []
  | dashes (lo hi : Decimal) (mid : Bytes) (hmid : ∀ c ∈ mid, isDigit c = true ∨ c = 45)
      (hle : lo.value ≤ hi.value) (hmax : hi.value ≤ 65535) :
      MisreadPorts (lo.1 ++ 45 :: (mid ++ 45 :: hi.1))

/-- A text that is taken for an amount of space although it is none: the empty one, and those in which
something stands behind the first percent sign, or nothing in front of it, where the first number of all
is read. -/
inductive MisreadSpace : Bytes → Prop
  | empty : MisreadSpace []
  | behind (n : Decimal) (rest : Bytes) (hne : rest ≠ []) (hrest : ∀ c ∈ rest, isDigit c = true ∨ c = 37)
      (hlt : n.value < 100) : MisreadSpace (n.1 ++ 37 :: rest)
  | first (rest : Bytes) (hrest : ∀ c ∈ rest, isDigit c = true ∨ c = 37)
      (hlt : ofDigits (rest.takeWhile isDigit) < 100) : MisreadSpace (37 :: rest)

section Exact

variable {ι V : Type}

/-- The parser accepts a text as `v` if and only if the text denotes `v`. -/
def Exact (parse : Bytes → Option V) (text : ι → Bytes) (Denotes : ι → V → Prop) (s : Bytes) : Prop :=
  ∀ v, parse s = some v ↔ ∃ x, text x = s ∧ Denotes x v

/-- A parser that is right about the texts that are written as they should be is right about those that it
does not accept, and about no others. -/
theorem exact_iff_written {parse : Bytes → Option V} {text : ι → Bytes} {Denotes : ι → V → Prop}
    (h : ∀ x v, parse (text x) = some v ↔ Denotes x v) (s : Bytes) :
    Exact parse text Denotes s ↔ ((parse s).isSome = true → ∃ x, text x = s) := by
  constructor
  · intro hexact hs
    obtain ⟨v, hv⟩ := isSome_iff_exists.mp hs
    obtain ⟨x, hx, -⟩ := (hexact v).mp hv
    exact ⟨x, hx⟩
  · intro hs v
    grind

end Exact

/-! ## Ports -/

section Ports

variable {first : Bool} {d : Option Bytes} {s a : Bytes}

theorem portChars_append (ha : ∀ c ∈ a, isDigit c = true) (rest : Bytes) :
    portChars first d (a ++ rest) = portChars (first && a.isEmpty) d rest := by
  induction a generalizing first with
  | nil => simp
  | cons c a ih =>
    rw [forall_mem_cons] at ha
    have hc : c ≠ 45 := by
      rintro rfl
      exact absurd ha.1 (by decide)
    rw [cons_append, portChars, if_neg fun h => hc h.2.1, if_neg (by simp [ha.1]), ih ha.2]
    simp

/-- What is stored when the loop has remembered `d`. -/
theorem tcpClientPortsParser_eq_some {r : UInt32 × UInt32} (hd : portChars true none s = some d) :
    tcpClientPortsParser s = some r ↔ (strtoul s).map UInt64.toNat = some r.1.toNat ∧
      (strtoul (d.getD s)).map UInt64.toNat = some r.2.toNat ∧ r.1.toNat ≤ r.2.toNat ∧
        r.2.toNat ≤ 65535 := by
  have hrange (minv maxv : UInt64) : (if tcpPortMax < minv then none else if tcpPortMax < maxv then none
      else if maxv < minv then none else some (minv.toUInt32, maxv.toUInt32)) = some r ↔
      minv.toNat = r.1.toNat ∧ maxv.toNat = r.2.toNat ∧ r.1.toNat ≤ r.2.toNat ∧ r.2.toNat ≤ 65535 := by
    have hmax : tcpPortMax.toNat = 65535 := rfl
    simp only [ite_none_left_eq_some, some.injEq, Prod.ext_iff, UInt64.lt_iff_toNat_lt, hmax,
      ← UInt32.toNat_inj, UInt64.toNat_toUInt32]
    omega
  rw [tcpClientPortsParser, hd]
  cases hmin : strtoul s with
  | none => simp
  | some minv =>
    have hsecond : d.elim (some minv) strtoul = strtoul (d.getD s) := by
      cases d with
      | none => exact hmin.symm
      | some t => rfl
    simp only [bind_eq_bind, bind_some, hsecond]
    cases strtoul (d.getD s) with
    | none => simp
    | some maxv => simpa using hrange minv maxv

theorem strtoul_port (n : Decimal) {rest : Bytes} (hrest : Stops rest) (v : UInt32) :
    (strtoul (n.1 ++ rest)).map UInt64.toNat = some v.toNat ↔ v.toNat = n.value :=
  n.2.map_strtoul_eq_some hrest (v.toNat_lt.trans (by decide))

theorem strtoul_lastPort (n : Decimal) (v : UInt32) :
    (strtoul n.1).map UInt64.toNat = some v.toNat ↔ v.toNat = n.value := by
  rw [← strtoul_port n stops_nil v, append_nil]

theorem tcpClientPortsParser_text (x : PortsValue) (r : UInt32 × UInt32) :
    tcpClientPortsParser x.text = some r ↔ x.Denotes r := by
  have hdigits (n : Decimal) (first : Bool) (d : Option Bytes) : portChars first d n.1 = some d := by
    rw [← append_nil n.1, portChars_append n.2.digits]
    rfl
  rw [PortsValue.Denotes]
  cases x with
  | port n =>
    rw [PortsValue.text, tcpClientPortsParser_eq_some (hdigits n true none), getD_none, strtoul_lastPort,
      strtoul_lastPort]
    rfl
  | range lo hi =>
    have hd : portChars true none (lo.1 ++ 45 :: hi.1) = some (some hi.1) := by
      rw [portChars_append lo.2.digits, isEmpty_eq_false_iff.mpr lo.2.ne_nil, portChars,
        if_pos ⟨rfl, rfl, hi.2.ne_nil⟩, hdigits]
    rw [PortsValue.text, tcpClientPortsParser_eq_some hd, getD_some,
      strtoul_port lo (stops_cons (by decide) _), strtoul_lastPort]
    rfl

/-- What the loop lets pass, and what it remembers. -/
theorem portChars_eq_some {d' : Option Bytes} (h : portChars first d s = some d') :
    (∀ c ∈ s, isDigit c = true ∨ c = 45) ∧ (first = true → s.head? ≠ some 45) ∧
      (45 ∉ s ∧ d' = d ∨ ∃ pre hi, s = pre ++ 45 :: hi ∧ hi ≠ [] ∧ 45 ∉ hi ∧ d' = some hi) := by
  fun_induction portChars first d s with
  | case1 first d => exact ⟨nofun, nofun, .inl ⟨not_mem_nil, (some.inj h).symm⟩⟩
  | case2 first d c ptr hdash ih =>
    obtain ⟨rfl, rfl, hne⟩ := hdash
    obtain ⟨hchars, -, hlast⟩ := ih h
    refine ⟨forall_mem_cons.mpr ⟨.inr rfl, hchars⟩, nofun, .inr ?_⟩
    rcases hlast with ⟨hno, rfl⟩ | ⟨pre, hi, rfl, hi_ne, hno, rfl⟩
    · exact ⟨[], ptr, rfl, hne, hno, rfl⟩
    · exact ⟨45 :: pre, hi, rfl, hi_ne, hno, rfl⟩
  | case3 => cases h
  | case4 first d c ptr _ hdigit ih =>
    have hc : isDigit c = true := Bool.eq_true_of_not_eq_false hdigit
    have hc45 : c ≠ 45 := by
      rintro rfl
      exact absurd hc (by decide)
    obtain ⟨hchars, -, hlast⟩ := ih h
    refine ⟨forall_mem_cons.mpr ⟨.inl hc, hchars⟩, fun _ hhead => hc45 (some.inj hhead), ?_⟩
    rcases hlast with ⟨hno, rfl⟩ | ⟨pre, hi, rfl, hi_ne, hno, rfl⟩
    · exact .inl ⟨fun hmem => (mem_cons.mp hmem).elim (hc45 ·.symm) hno, rfl⟩
    · exact .inr ⟨c :: pre, hi, rfl, hi_ne, hno, rfl⟩

theorem portChars_lastDash (hi : Decimal) {mid : Bytes}
    (hmid : ∀ c ∈ mid, isDigit c = true ∨ c = 45) (d : Option Bytes) :
    portChars false d (mid ++ 45 :: hi.1) = some (some hi.1) := by
  induction mid generalizing d with
  | nil =>
    rw [nil_append, portChars, if_pos ⟨rfl, rfl, hi.2.ne_nil⟩, ← append_nil hi.1,
      portChars_append hi.2.digits]
    rfl
  | cons c mid ih =>
    rw [forall_mem_cons] at hmid
    rw [cons_append, portChars]
    split
    · exact ih hmid.2 _
    · simp_all

theorem decimal_of_no_dash {ds : Bytes} (hne : ds ≠ []) (hchars : ∀ c ∈ ds, isDigit c = true ∨ c = 45)
    (hno : 45 ∉ ds) : IsDecimal ds :=
  ⟨hne, fun c hc => (hchars c hc).resolve_right fun h => hno (h ▸ hc)⟩

/-- **The texts that are accepted as a range of ports**, though they are not written as one. -/
theorem misreadPorts_iff (s : Bytes) : MisreadPorts s ↔
    (tcpClientPortsParser s).isSome = true ∧ ¬ ∃ x, PortsValue.text x = s := by
  constructor
  · intro h
    cases h with
    | empty =>
      refine ⟨by decide, ?_⟩
      rintro ⟨n | ⟨lo, hi⟩, hx⟩
      · exact n.2.ne_nil hx
      · exact absurd hx (by simp [PortsValue.text])
    | dashes lo hi mid hmid hle hmax =>
      constructor
      · have hd : portChars true none (lo.1 ++ 45 :: (mid ++ 45 :: hi.1)) = some (some hi.1) := by
          rw [portChars_append lo.2.digits, isEmpty_eq_false_iff.mpr lo.2.ne_nil, portChars,
            if_pos ⟨rfl, rfl, by simp⟩, portChars_lastDash hi hmid]
        have hnat {n : Nat} (hn : n ≤ 65535) : (UInt32.ofNat n).toNat = n :=
          UInt32.toNat_ofNat_of_lt' (hn.trans_lt (by decide))
        refine isSome_iff_exists.mpr ⟨(.ofNat lo.value, .ofNat hi.value),
          (tcpClientPortsParser_eq_some hd).mpr ?_⟩
        rw [getD_some, strtoul_port lo (stops_cons (by decide) _), strtoul_lastPort, hnat hmax,
          hnat (hle.trans hmax)]
        exact ⟨rfl, rfl, hle, hmax⟩
      · rintro ⟨x, hx⟩
        have hcount := congrArg (count 45) hx
        have hzero (n : Decimal) : n.1.count 45 = 0 := count_eq_zero.mpr (n.2.notMem (by decide))
        cases x with
        | port n => simp [PortsValue.text, hzero, count_append] at hcount
        | range lo' hi' => simp [PortsValue.text, hzero, count_append] at hcount
  · rintro ⟨hsome, hnot⟩
    obtain ⟨r, hr⟩ := isSome_iff_exists.mp hsome
    obtain ⟨d, hd⟩ : ∃ d, portChars true none s = some d := by
      cases hd : portChars true none s with
      | none =>
        rw [tcpClientPortsParser, hd] at hr
        cases hr
      | some d => exact ⟨d, rfl⟩
    obtain ⟨hlo, hhi, hle, hmax⟩ := (tcpClientPortsParser_eq_some hd).mp hr
    obtain ⟨hchars, hhead, hlast⟩ := portChars_eq_some hd
    rcases hlast with ⟨hno, rfl⟩ | ⟨pre, hi, rfl, hi_ne, hno, rfl⟩
    · by_cases hs : s = []
      · exact hs ▸ .empty
      · exact absurd ⟨.port ⟨s, decimal_of_no_dash hs hchars hno⟩, rfl⟩ hnot
    · let hi : Decimal := ⟨hi, decimal_of_no_dash hi_ne
        (fun c hc => hchars c (mem_append_right _ (mem_cons_of_mem _ hc))) hno⟩
      have hpre : ∀ c ∈ pre, isDigit c = true ∨ c = 45 := fun c hc => hchars c (mem_append_left _ hc)
      by_cases hdash : 45 ∈ pre
      · -- the first number ends at the first dash
        obtain ⟨lo, mid, rfl, hlo_no⟩ := eq_append_cons_of_mem hdash
        have hlo_ne : lo ≠ [] := by
          rintro rfl
          exact hhead rfl rfl
        let lo : Decimal := ⟨lo, decimal_of_no_dash hlo_ne (fun c hc => hpre c (mem_append_left _ hc)) hlo_no⟩
        rw [append_assoc, cons_append, strtoul_port lo (stops_cons (by decide) _)] at hlo
        rw [getD_some, strtoul_lastPort hi] at hhi
        rw [append_assoc, cons_append]
        exact .dashes lo hi mid (fun c hc => hpre c (mem_append_right _ (mem_cons_of_mem _ hc)))
          (hlo ▸ hhi ▸ hle) (hhi ▸ hmax)
      · have hpre_ne : pre ≠ [] := by
          rintro rfl
          exact hhead rfl rfl
        exact absurd ⟨.range ⟨pre, decimal_of_no_dash hpre_ne hpre hdash⟩ hi, rfl⟩ hnot

end Ports

/-! ## Space -/

theorem all_of_decimal (n : Decimal) : n.1.all (fun c => isDigit c || c == 37) = true := by
  simpa using fun c hc => .inl (n.2.digits c hc)

theorem spaceLeftParser_text (x : SpaceValue) (r : UInt64 × UInt32) :
    spaceLeftParser x.text = some r ↔ x.Denotes r := by
  cases x with
  | megabytes n =>
    have hmem : 37 ∉ n.1 := n.2.notMem (by decide)
    have hread := n.2.map_strtoul_eq_some stops_nil r.1.toNat_lt
    rw [append_nil] at hread
    rw [SpaceValue.Denotes, Decimal.value, ← hread, SpaceValue.text, spaceLeftParser, if_pos (all_of_decimal n),
      replace_of_not_mem hmem]
    cases strtoul n.1 with
    | none => simp
    | some i => simp [hmem, Prod.ext_iff, ← UInt64.toNat_inj, ← UInt32.toNat_inj, eq_comm]
  | percent n =>
    have hread := n.2.map_strtoul_eq_some (stops_cons (show isDigit 32 = false by decide) [])
      (r.2.toNat_lt.trans (by decide))
    have hall : (n.1 ++ [37]).all (fun c => isDigit c || c == 37) = true := by
      rw [all_append, all_of_decimal]
      rfl
    rw [SpaceValue.Denotes, Decimal.value, ← hread, SpaceValue.text, spaceLeftParser, if_pos hall,
      replace_append_right (n.2.notMem (by decide))]
    show (strtoul (n.1 ++ [32])).bind _ = _ ↔ _
    cases strtoul (n.1 ++ [32]) with
    | none => simp
    | some i =>
      simp only [bind_some, if_pos (mem_append_right n.1 (mem_singleton_self 37)), ite_none_left_eq_some,
        map_some, some.injEq, Prod.ext_iff, UInt64.lt_iff_toNat_lt, ← UInt32.toNat_inj,
        ← UInt64.toNat_inj, UInt64.toNat_toUInt32, UInt64.toNat_ofNat]
      omega

/-- A text of digits and percent signs has neither a blank nor a sign in front. -/
theorem strtoul_space {s : Bytes} (hs : ∀ c ∈ s, isDigit c = true ∨ c = 37) : strtoul s =
    if 2 ^ 64 ≤ ofDigits (s.takeWhile isDigit) then none
    else some (.ofNat (ofDigits (s.takeWhile isDigit))) := by
  have hplain : ∀ c : UInt8, isDigit c = true ∨ c = 37 → isSpace c = false ∧ c ≠ 45 ∧ c ≠ 43 :=
    forall_byte (by decide +kernel)
  cases s with
  | nil => rfl
  | cons c s =>
    obtain ⟨hspace, hminus, hplus⟩ := hplain c (hs c mem_cons_self)
    simp [strtoul, hspace, hminus, hplus]

/-- The number that is read is a percentage. -/
def Percentage (s : Bytes) : Prop := ∃ i, strtoul s = some i ∧ ¬ 99 < i

theorem ofNat_percentage (n : Nat) :
    (∃ i, (if 2 ^ 64 ≤ n then none else some (UInt64.ofNat n)) = some i ∧ ¬ 99 < i) ↔ n < 100 := by
  split
  · exact iff_of_false (by simp) (by omega)
  · rename_i hlt
    simp only [some.injEq, exists_eq_left', UInt64.lt_iff_toNat_lt,
      UInt64.toNat_ofNat_of_lt' (Nat.not_le.mp hlt), UInt64.toNat_ofNat]
    omega

theorem percentage_behind (n : Decimal) (rest : Bytes) :
    Percentage (n.1 ++ 32 :: rest) ↔ n.value < 100 := by
  rw [Percentage, n.2.strtoul_append (stops_cons (by decide) _), ofNat_percentage]
  rfl

theorem percentage_first {rest : Bytes} (hrest : ∀ c ∈ rest, isDigit c = true ∨ c = 37) :
    Percentage (32 :: rest) ↔ ofDigits (rest.takeWhile isDigit) < 100 := by
  rw [← ofNat_percentage, ← strtoul_space hrest]
  rfl

/-- With a percent sign, everything depends on what `strtoul` reads. -/
theorem isSome_spaceLeftParser_iff {ds rest : Bytes} (hno : 37 ∉ ds) :
    (spaceLeftParser (ds ++ 37 :: rest)).isSome = true ↔ (∀ c ∈ ds, isDigit c = true) ∧
      (∀ c ∈ rest, isDigit c = true ∨ c = 37) ∧ Percentage (ds ++ 32 :: rest) := by
  have hall : (ds ++ 37 :: rest).all (fun c => isDigit c || c == 37) = true ↔
      (∀ c ∈ ds, isDigit c = true) ∧ ∀ c ∈ rest, isDigit c = true ∨ c = 37 := by
    simp only [List.all_eq_true, mem_append, mem_cons, Bool.or_eq_true, beq_iff_eq, or_imp, forall_and,
      forall_eq, or_true, true_and]
    refine and_congr_left fun _ => forall₂_congr fun c hc => or_iff_left ?_
    rintro rfl
    exact hno hc
  have hreplace : (ds ++ 37 :: rest).replace 37 32 = ds ++ 32 :: rest := by
    rw [replace_append_right hno, replace_cons_self]
  rw [spaceLeftParser, hreplace, ← and_assoc, ← hall, Percentage]
  split
  · rename_i h
    rw [and_iff_right h]
    cases strtoul (ds ++ 32 :: rest) with
    | none => simp
    | some i =>
      simp
  · rename_i h
    simp [h]

theorem isSome_spaceLeftParser_of_notMem {s : Bytes} (hno : 37 ∉ s)
    (h : (spaceLeftParser s).isSome = true) : ∀ c ∈ s, isDigit c = true := by
  have hall : s.all (fun c => isDigit c || c == 37) = true := by
    by_contra hall
    rw [spaceLeftParser, if_neg hall] at h
    cases h
  grind

/-- A text with a percent sign is written as it should be if the sign is the last byte, and a number is
in front of it. -/
theorem written_percent_iff {ds rest : Bytes} :
    (∃ x, SpaceValue.text x = ds ++ 37 :: rest) ↔ IsDecimal ds ∧ rest = [] := by
  constructor
  · rintro ⟨m | m, hx⟩
    · have hmem : 37 ∈ SpaceValue.text (.megabytes m) := by
        rw [hx]
        simp
      exact absurd hmem (m.2.notMem (by decide))
    · obtain ⟨rfl, -, rfl⟩ := (append_cons_inj_of_notMem (m.2.notMem (by decide)) not_mem_nil).mp hx
      exact ⟨m.2, rfl⟩
  · rintro ⟨hds, rfl⟩
    exact ⟨.percent ⟨ds, hds⟩, rfl⟩

/-- **The texts that are accepted as an amount of space**, though they are not written as one. -/
theorem misreadSpace_iff (s : Bytes) : MisreadSpace s ↔
    (spaceLeftParser s).isSome = true ∧ ¬ ∃ x, SpaceValue.text x = s := by
  constructor
  · intro h
    cases h with
    | empty =>
      refine ⟨by decide, ?_⟩
      rintro ⟨n | n, hx⟩
      · exact n.2.ne_nil hx
      · exact absurd hx (by simp [SpaceValue.text])
    | behind n rest hne hrest hlt =>
      exact ⟨(isSome_spaceLeftParser_iff (n.2.notMem (by decide))).mpr
        ⟨n.2.digits, hrest, (percentage_behind n rest).mpr hlt⟩,
        fun h => hne (written_percent_iff.mp h).2⟩
    | first rest hrest hlt =>
      exact ⟨(isSome_spaceLeftParser_iff not_mem_nil).mpr ⟨nofun, hrest, (percentage_first hrest).mpr hlt⟩,
        fun h => ((@written_percent_iff [] rest).mp h).1.ne_nil rfl⟩
  · rintro ⟨hsome, hnot⟩
    by_cases hmem : 37 ∈ s
    · obtain ⟨ds, rest, rfl, hno⟩ := eq_append_cons_of_mem hmem
      obtain ⟨hds, hrest, hread⟩ := (isSome_spaceLeftParser_iff hno).mp hsome
      by_cases hnil : ds = []
      · subst hnil
        exact .first rest hrest ((percentage_first hrest).mp hread)
      · let n : Decimal := ⟨ds, hnil, hds⟩
        refine .behind n rest (fun hrest => ?_) hrest ((percentage_behind n rest).mp hread)
        exact hnot (written_percent_iff.mpr ⟨n.2, hrest⟩)
    · by_cases hnil : s = []
      · exact hnil ▸ .empty
      · exact absurd ⟨.megabytes ⟨s, hnil, isSome_spaceLeftParser_of_notMem hmem hsome⟩, rfl⟩ hnot

/-- **Both parsers are right** about a text if and only if it is not one that they misread. -/
theorem parsers_exact_iff (s : Bytes) :
    (Exact tcpClientPortsParser PortsValue.text PortsValue.Denotes s ↔ ¬ MisreadPorts s) ∧
    (Exact spaceLeftParser SpaceValue.text SpaceValue.Denotes s ↔ ¬ MisreadSpace s) := by
  rw [exact_iff_written tcpClientPortsParser_text, exact_iff_written spaceLeftParser_text,
    misreadPorts_iff, misreadSpace_iff, not_and_not_right, not_and_not_right]
  exact ⟨.rfl, .rfl⟩

/-- Two dashes, and digits behind a percent sign. -/
theorem parsers_not_exact :
    ¬ Exact tcpClientPortsParser PortsValue.text PortsValue.Denotes (ascii "1--5") ∧
      ¬ Exact spaceLeftParser SpaceValue.text SpaceValue.Denotes (ascii "5%3") := by
  have hports : MisreadPorts (ascii "1--5") :=
    .dashes ⟨ascii "1", by decide⟩ ⟨ascii "5", by decide⟩ [] nofun (by decide) (by decide)
  have hspace : MisreadSpace (ascii "5%3") :=
    .behind ⟨ascii "5", by decide⟩ (ascii "3") (by decide) (by decide +kernel) (by decide)
  obtain ⟨hs, hnot⟩ := (misreadPorts_iff _).mp hports
  obtain ⟨hs', hnot'⟩ := (misreadSpace_iff _).mp hspace
  exact ⟨fun h => hnot ((exact_iff_written tcpClientPortsParser_text _).mp h hs),
    fun h => hnot' ((exact_iff_written spaceLeftParser_text _).mp h hs')⟩

end LibAudit.Auditd
