import LibAudit.Rules.Pairs

/-!
# Numbers in rules

Most fields of a rule are numbers.  The text of the value can be a name that is looked up, or it should
denote an integer that fits into 32 bits.  `audit_rule_fieldpair_data` looks at the first character or
two of it, and then takes what `strtoul` or `strtol` makes of it.

`storesExactly_iff` says for which texts that is right.  It is not for those that go on behind the
digits (`12abc`) or do not fit; nor for any text that is given as a session, where everything is taken,
or as a family of addresses, where the first character is not looked at; nor for an architecture that
starts with a letter, if it goes on behind its hexadecimal digits.
-/

namespace LibAudit.Rules

open Tables Option

/-! ## What is asked for -/

/-- The fields that admit a minus sign. -/
def NumKind.minus : NumKind → Bool
  | .user | .exit | .arg | .session => true
  | _ => false

/-- Hexadecimal digits without `0x`, the first one a letter. -/
def bareHex (v : Bytes) : Option Nat :=
  if v ≠ [] ∧ startsDigit v = false ∧ v.all (isDigitIn 16) = true then some (valueIn 16 v) else none

/-- All of the text denotes the integer `m`, which fits.  Architectures are also written in base sixteen
without `0x`. -/
structure NumKind.Denotes (k : NumKind) (v : Bytes) (m : Int) : Prop where
  whole : signedConstant v = some m ∨ k = .arch ∧ ∃ n, bareHex v = some n ∧ m = n
  sign : v.head? = some 45 → k.minus = true
  lower : -2 ^ 31 ≤ m
  upper : m < 2 ^ 32

/-- The text is a name that is looked up. -/
def NumKind.Resolves (env : Env) (v : Bytes) : NumKind → Prop
  | .user => startsDigit v = false ∧ startsNegative v = false ∧
      (v = ascii "unset" ∨ (env.nameToUid v).isSome = true)
  | .group => startsDigit v = false ∧ (env.nameToGid v).isSome = true
  | .exit => startsDigit v = false ∧ startsNegative v = false ∧
      ∃ n, env.nameToErrno (if v.head? == some 45 then v.tail else v) = some n ∧ n ≠ 0
  | .msgtype => startsDigit v = false ∧ 0 < auditNameToMsgType v
  | .arch => startsDigit v = false ∧ (v.map downcase = ascii "b64" ∨ v.map downcase = ascii "b32" ∨
      (auditNameToMachine v).isSome = true)
  | .perm => (permBits v).isSome = true
  | .filetype => (lookupName ftypeTab v).isSome = true
  | .fstype => startsDigit v = false ∧ (lookupName fstypeTab v).isSome = true
  | .session => v = ascii "unset"
  | .arg | .saddrFam | .number _ | .inode => False

/-- Whenever `pair`, the value `v` of the field `f`, is accepted for the `n`-th place of a rule, the text
denotes an integer that fits, and this is what is stored, whatever was there. -/
structure StoresExactly (env : Env) (pair : CString) (flags : FilterList) (n : Nat) (given : Given)
    (f : NumField) (v : Bytes) : Prop where
  denotes : ∀ alloc s s' r r', s.rule = some r → r.fieldCount = n → s.given = given →
    auditRuleFieldpairData env pair flags alloc s = .ok () s' → s'.rule = some r' →
    ∃ m, f.kind.Denotes v m ∧ r'.values n = toU32 m
  slot : ∀ alloc s₁ s₁' s₂ s₂' r₁ r₁' r₂ r₂', s₁.rule = some r₁ → s₂.rule = some r₂ →
    r₁.fieldCount = n → r₂.fieldCount = n → s₁.given = given → s₂.given = given →
    auditRuleFieldpairData env pair flags alloc s₁ = .ok () s₁' →
    auditRuleFieldpairData env pair flags alloc s₂ = .ok () s₂' →
    s₁'.rule = some r₁' → s₂'.rule = some r₂' → r₁'.values n = r₂'.values n

/-- The tests on the list, the operator and what was given before. -/
def NumKind.Admitted (env : Env) (flags : FilterList) (given : Given) (op : Op) : NumKind → Prop
  | .exit | .perm | .filetype => flags = .exit
  | .msgtype => flags = .exclude ∨ flags = .user
  | .arch => given.syscall = false ∧ (op = .notEqual ∨ op = .equal)
  | .fstype => flags = .filesystem ∧ (op = .notEqual ∨ op = .equal)
  | .session => env.sessionidFilter = true ∧ (flags = .exclude ∨ flags = .user ∨ flags = .exit)
  | .number exitOnly => exitOnly = true → flags = .exit
  | .inode => flags = .exit ∧ (op = .notEqual ∨ op = .equal)
  | .user | .group | .arg | .saddrFam => True

/-- What is made of a text that is no name, if it is taken at all; `old` is what the place held. -/
def NumKind.read (old : UInt32) (v : Bytes) : NumKind → Option UInt32
  | .user | .arg =>
    if startsDigit v then some (unsigned v) else if startsNegative v then some (signed v) else none
  | .exit => if startsDigit v || startsNegative v then some (signed v) else none
  | .group | .msgtype | .number _ => if startsDigit v then some (signed v) else none
  | .inode => if startsDigit v then some (unsigned v) else none
  | .fstype => if startsDigit v = true ∧ unsigned v ≠ 0 - 1 then some (unsigned v) else none
  | .arch => (strtoulIn (if startsDigit v then 0 else 16) v).bind fun elf =>
      if (auditElfToMachine elf.toUInt32).isSome then some elf.toUInt32 else none
  | .session => some (if startsDigit v then unsigned v else if startsNegative v then signed v else old)
  | .saddrFam => if unsigned v < afMax then some (unsigned v) else none
  | .perm | .filetype => none

/-- The text is taken for a number. -/
def NumKind.Taken (v : Bytes) (k : NumKind) : Prop := (k.read 0 v).isSome = true

/-! ## Reading -/

section Reading

variable {v : Bytes} {n : Nat} {m : Int} {k : NumKind}

theorem unsigned_constant (h : constant v = some n) (hn : n < 2 ^ 32) : unsigned v = toU32 n := by
  rw [unsigned, strtoulIn, numberIn_constant h, toU32_natCast]
  dsimp only
  rw [if_neg (by omega), if_neg Bool.false_ne_true, getD_some]
  simp

theorem signed_constant (h : constant v = some n) (hn : n < 2 ^ 32) : signed v = toU32 n := by
  rw [signed, strtolIn, numberIn_constant h]
  dsimp only
  rw [if_neg Bool.false_ne_true, Nat.min_eq_left (by omega)]

theorem signed_neg_constant (h : constant v = some n) (hn : n ≤ 2 ^ 31) :
    signed (45 :: v) = toU32 (-n) := by
  rw [signed, strtolIn, numberIn_neg_constant h]
  dsimp only
  rw [if_pos rfl, Nat.min_eq_left (by omega)]

theorem startsDigit_constant (h : constant v = some n) : startsDigit v = true := by
  obtain ⟨⟨c, t, rfl, hc⟩, -⟩ := constant_eq_some h
  exact hc

/-- A text that denotes an integer is a constant, a minus sign and a constant, or digits in base
sixteen. -/
theorem NumKind.Denotes.cases (h : k.Denotes v m) :
    (∃ n : Nat, constant v = some n ∧ m = n ∧ n < 2 ^ 32) ∨
    (k.minus = true ∧ ∃ t, ∃ n : Nat, v = 45 :: t ∧ constant t = some n ∧ m = -n ∧ n ≤ 2 ^ 31) ∨
    (k = .arch ∧ ∃ n : Nat, bareHex v = some n ∧ m = n ∧ n < 2 ^ 32) := by
  have hlower := h.lower
  have hupper := h.upper
  rcases h.whole with hwhole | ⟨hk, n, hn, rfl⟩
  · by_cases hminus : v.head? = some 45
    · obtain ⟨t, rfl⟩ := List.head?_eq_some_iff.mp hminus
      rw [signedConstant, if_pos hminus] at hwhole
      obtain ⟨n, hn, rfl⟩ := map_eq_some_iff.mp hwhole
      exact .inr (.inl ⟨h.sign hminus, t, n, rfl, hn, rfl, by omega⟩)
    · rw [signedConstant, if_neg hminus] at hwhole
      obtain ⟨n, hn, rfl⟩ := map_eq_some_iff.mp hwhole
      exact .inl ⟨n, hn, rfl, by omega⟩
  · exact .inr (.inr ⟨hk, n, hn, rfl, by omega⟩)

/-- The digits of an architecture in base sixteen. -/
theorem strtoulIn_bareHex (h : bareHex v = some n) (hn : n < 2 ^ 32) :
    startsDigit v = false ∧ startsNegative v = false ∧ strtoulIn 16 v = some (UInt64.ofNat n) := by
  rw [bareHex] at h
  split at h
  · rename_i hv
    obtain ⟨hne, hdigit, hall⟩ := hv
    have hnum : Numeral 16 v [] := ⟨hne, List.all_eq_true.mp hall, nofun, fun _ => rfl⟩
    obtain ⟨c, t, rfl, -, hminus, -⟩ := hnum.exists_cons
    refine ⟨hdigit, ?_, ?_⟩
    · simp [startsNegative, hminus]
    · rw [strtoulIn, numberIn_hex hnum, some.inj h]
      dsimp only
      rw [if_neg (by omega), if_neg Bool.false_ne_true]
  · cases h

/-- The three things a text that denotes an integer can be, and what they are read as. -/
inductive Reads (k : NumKind) (v : Bytes) (value : UInt32) : Prop
  | digits (digit : startsDigit v = true) (unsigned : unsigned v = value) (signed : signed v = value)
  | negative (minus : k.minus = true) (digit : startsDigit v = false)
      (negative : startsNegative v = true) (signed : signed v = value)
  | hex (arch : k = .arch) (digit : startsDigit v = false)
      (read : ∃ elf, strtoulIn 16 v = some elf ∧ elf.toUInt32 = value)

theorem NumKind.Denotes.reads (h : k.Denotes v m) : Reads k v (toU32 m) := by
  rcases h.cases with ⟨n, hn, rfl, hlt⟩ | ⟨hminus, t, n, rfl, hn, rfl, hle⟩ | ⟨hk, n, hn, rfl, hlt⟩
  · exact .digits (startsDigit_constant hn) (unsigned_constant hn hlt) (signed_constant hn hlt)
  · have ht := startsDigit_constant hn
    refine .negative hminus rfl ?_ (signed_neg_constant hn hle)
    simpa [startsNegative] using ht
  · obtain ⟨hdigit, -, hread⟩ := strtoulIn_bareHex hn hlt
    refine .hex hk hdigit ⟨_, hread, ?_⟩
    simp [toU32_natCast]

end Reading

/-! ## What is accepted -/

section Accepted

open NumKind (Admitted)

variable {env : Env} {flags : FilterList} {given : Given} {op : Op} {v : Bytes} {old value : UInt32}
  {k : NumKind}

/-- The machine of an architecture that has no name. -/
theorem auditDetermineMachine_of_not_name (hdigit : startsDigit v = false)
    (hname : ¬ NumKind.Resolves env v .arch) : auditDetermineMachine env v =
      (strtoulIn 16 v).bind fun elf => auditElfToMachine elf.toUInt32 := by
  have h64 : v.map downcase ≠ ascii "b64" := fun h => hname ⟨hdigit, .inl h⟩
  have h32 : v.map downcase ≠ ascii "b32" := fun h => hname ⟨hdigit, .inr (.inl h)⟩
  have hmachine : auditNameToMachine v = none := by
    rw [← not_isSome_iff_eq_none]
    exact fun h => hname ⟨hdigit, .inr (.inr h)⟩
  rw [auditDetermineMachine, if_neg h64, if_neg h32, hmachine]

theorem auditMachineToElf_of_elf {elf : UInt32} {machine : Machine}
    (h : auditElfToMachine elf = some machine) : auditMachineToElf machine = elf := by
  have htest := List.find?_some h
  exact beq_iff_eq.mp htest

theorem opEqNotEq_iff : ¬ (op ≠ .notEqual ∧ op ≠ .equal) ↔ op = .notEqual ∨ op = .equal := by
  rw [not_and_or, not_not, not_not]

/-- The architecture that a text stands for, unless it is a name. -/
theorem parseNum_arch_iff (hname : ¬ NumKind.Resolves env v .arch) (hsys : given.syscall = false)
    (hop : ¬ (op ≠ .notEqual ∧ op ≠ .equal)) :
    parseNum env flags given op v old .arch = .ok value ↔ NumKind.read old v .arch = some value := by
  cases hd : startsDigit v with
  | true =>
    cases hv : strtoulIn 0 v with
    | none => simp [parseNum, NumKind.read, hsys, hop, hd, hv]
    | some elf =>
      cases hm : auditElfToMachine elf.toUInt32 <;>
        simp [parseNum, NumKind.read, hsys, hop, hd, hv, hm]
  | false =>
    have hmachine := auditDetermineMachine_of_not_name hd hname
    cases hv : strtoulIn 16 v with
    | none => simp [parseNum, NumKind.read, hsys, hop, hd, hv, hmachine]
    | some elf =>
      cases hm : auditElfToMachine elf.toUInt32 with
      | none => simp [parseNum, NumKind.read, hsys, hop, hd, hv, hmachine, hm]
      | some machine =>
        simp [parseNum, NumKind.read, hsys, hop, hd, hv, hmachine, hm, auditMachineToElf_of_elf hm]

theorem parseNum_exit_iff (hname : ¬ NumKind.Resolves env v .exit) :
    parseNum env .exit given op v old .exit = .ok value ↔ NumKind.read old v .exit = some value := by
  cases hd : startsDigit v with
  | true => simp [parseNum, NumKind.read, hd]
  | false =>
    cases hn : startsNegative v with
    | true => simp [parseNum, NumKind.read, hd, hn]
    | false =>
      refine ⟨fun h => ?_, fun h => by simp [NumKind.read, hd, hn] at h⟩
      unfold parseNum at h
      simp only [hd, hn, ne_eq, not_true_eq_false, if_false, Bool.or_self, Bool.false_eq_true] at h
      split at h
      · cases h
      · cases h
      · rename_i n hne hsome
        exact absurd ⟨hd, hn, n, hsome, hne⟩ hname

/-- The text is taken as `Admitted` and `read` say. -/
def NumKind.TakenAs (env : Env) (flags : FilterList) (given : Given) (op : Op) (v : Bytes)
    (old value : UInt32) (k : NumKind) : Prop :=
  parseNum env flags given op v old k = .ok value ↔
    k.Admitted env flags given op ∧ k.read old v = some value

section TakenAs

open NumKind (TakenAs Resolves)

theorem takenAs_user (hname : ¬ Resolves env v .user) :
    TakenAs env flags given op v old value .user := by
  cases hd : startsDigit v with
  | true => simp [TakenAs, parseNum, Admitted, NumKind.read, hd]
  | false =>
    cases hn : startsNegative v with
    | true => simp [TakenAs, parseNum, Admitted, NumKind.read, hd, hn]
    | false =>
      have hunset : v ≠ ascii "unset" := fun h => hname ⟨hd, hn, .inl h⟩
      have huid : env.nameToUid v = none := not_isSome_iff_eq_none.mp fun h => hname ⟨hd, hn, .inr h⟩
      simp [TakenAs, parseNum, Admitted, NumKind.read, hd, hn, hunset, huid]

theorem takenAs_group (hname : ¬ Resolves env v .group) :
    TakenAs env flags given op v old value .group := by
  cases hd : startsDigit v with
  | true => simp [TakenAs, parseNum, Admitted, NumKind.read, hd]
  | false =>
    have hgid : env.nameToGid v = none := not_isSome_iff_eq_none.mp fun h => hname ⟨hd, h⟩
    simp [TakenAs, parseNum, Admitted, NumKind.read, hd, hgid]

theorem takenAs_msgtype (hname : ¬ Resolves env v .msgtype) :
    TakenAs env flags given op v old value .msgtype := by
  by_cases hf : flags ≠ .exclude ∧ flags ≠ .user
  · simp [TakenAs, parseNum, Admitted, hf]
  · have hf' : flags = .exclude ∨ flags = .user := by rwa [not_and_or, not_not, not_not] at hf
    cases hd : startsDigit v with
    | true => simp [TakenAs, parseNum, Admitted, NumKind.read, hd, hf, hf']
    | false =>
      have hmsg : ¬ 0 < auditNameToMsgType v := fun h => hname ⟨hd, h⟩
      simp [TakenAs, parseNum, NumKind.read, hd, hf, hmsg]

theorem takenAs_fstype (hname : ¬ Resolves env v .fstype) :
    TakenAs env flags given op v old value .fstype := by
  by_cases hf : flags = .filesystem
  · by_cases ho : op ≠ .notEqual ∧ op ≠ .equal
    · simp [TakenAs, parseNum, Admitted, hf, ho]
    · cases hd : startsDigit v with
      | true =>
        by_cases hv : unsigned v = -1 <;>
          simp [TakenAs, parseNum, Admitted, NumKind.read, hf, ho, opEqNotEq_iff.mp ho, hd, hv]
      | false =>
        have htype : lookupName fstypeTab v = none :=
          not_isSome_iff_eq_none.mp fun h => hname ⟨hd, h⟩
        simp [TakenAs, parseNum, NumKind.read, hf, ho, hd, htype]
  · simp [TakenAs, parseNum, Admitted, hf]

theorem takenAs_session (hname : ¬ Resolves env v .session) :
    TakenAs env flags given op v old value .session := by
  have hunset : v ≠ ascii "unset" := hname
  cases he : env.sessionidFilter with
  | false => simp [TakenAs, parseNum, Admitted, he]
  | true =>
    by_cases hf : flags ≠ .exclude ∧ flags ≠ .user ∧ flags ≠ .exit
    · simp [TakenAs, parseNum, Admitted, he, hf]
    · have hf' : flags = .exclude ∨ flags = .user ∨ flags = .exit := by
        rwa [not_and_or, not_and_or, not_not, not_not, not_not] at hf
      cases hd : startsDigit v with
      | true => simp [TakenAs, parseNum, Admitted, NumKind.read, he, hf, hf', hd]
      | false =>
        cases hn : startsNegative v <;>
          simp [TakenAs, parseNum, Admitted, NumKind.read, he, hf, hf', hd, hn, hunset]

theorem takenAs_number (exitOnly : Bool) :
    TakenAs env flags given op v old value (.number exitOnly) := by
  by_cases hf : exitOnly = true ∧ flags ≠ .exit
  · simp [TakenAs, parseNum, Admitted, hf]
  · have hadm : Admitted env flags given op (.number exitOnly) := by
      simpa [Admitted] using hf
    rw [TakenAs, and_iff_right hadm]
    cases hd : startsDigit v <;> simp [parseNum, NumKind.read, hf, hd]

theorem takenAs_inode : TakenAs env flags given op v old value .inode := by
  by_cases hf : flags = .exit
  · by_cases ho : op ≠ .notEqual ∧ op ≠ .equal
    · simp [TakenAs, parseNum, Admitted, hf, ho]
    · cases hd : startsDigit v <;>
        simp [TakenAs, parseNum, Admitted, NumKind.read, hf, ho, opEqNotEq_iff.mp ho, hd]
  · simp [TakenAs, parseNum, Admitted, hf]

end TakenAs

/-- **Which texts are accepted**, other than names, and what is stored for them. -/
theorem parseNum_ok_iff (hname : ¬ k.Resolves env v) : k.TakenAs env flags given op v old value := by
  cases k with
  | user => exact takenAs_user hname
  | group => exact takenAs_group hname
  | exit =>
    by_cases hf : flags = .exit
    · subst hf
      simp [NumKind.TakenAs, Admitted, parseNum_exit_iff hname]
    · simp [NumKind.TakenAs, parseNum, Admitted, hf]
  | msgtype => exact takenAs_msgtype hname
  | arch =>
    cases hs : given.syscall with
    | true => simp [NumKind.TakenAs, parseNum, Admitted, hs]
    | false =>
      by_cases ho : op ≠ .notEqual ∧ op ≠ .equal
      · simp [NumKind.TakenAs, parseNum, Admitted, hs, ho]
      · simp [NumKind.TakenAs, Admitted, hs, opEqNotEq_iff.mp ho, parseNum_arch_iff hname hs ho]
  | perm =>
    have hperm : permBits v = none := not_isSome_iff_eq_none.mp hname
    simp only [NumKind.TakenAs, parseNum, NumKind.read, hperm, elim_none, reduceCtorEq, and_false,
      iff_false]
    split_ifs <;> exact fun h => by cases h
  | filetype =>
    have htype : lookupName ftypeTab v = none := not_isSome_iff_eq_none.mp hname
    simp only [NumKind.TakenAs, parseNum, NumKind.read, htype, elim_none, reduceCtorEq, and_false,
      iff_false]
    split_ifs <;> exact fun h => by cases h
  | fstype => exact takenAs_fstype hname
  | arg =>
    cases hd : startsDigit v <;> cases hn : startsNegative v <;>
      simp [NumKind.TakenAs, parseNum, Admitted, NumKind.read, hd, hn]
  | session => exact takenAs_session hname
  | saddrFam =>
    by_cases hlt : unsigned v < afMax <;>
      simp [NumKind.TakenAs, parseNum, Admitted, NumKind.read, hlt]
  | number exitOnly => exact takenAs_number exitOnly
  | inode => exact takenAs_inode

theorem read_arch {elf : UInt64} (hv : strtoulIn (if startsDigit v then 0 else 16) v = some elf)
    (h : NumKind.read old v .arch = some value) : value = elf.toUInt32 := by
  simp only [NumKind.read, hv, bind_some] at h
  split at h
  · exact (some.inj h).symm
  · cases h

/-- **What is stored** for a text that denotes an integer. -/
theorem read_eq_of_reads {stored : UInt32} (hreads : Reads k v value)
    (h : k.read old v = some stored) : stored = value := by
  cases hreads with
  | digits hd hu hs =>
    cases k with
    | arch =>
      cases hv : strtoulIn 0 v with
      | none => simp [NumKind.read, hd, hv] at h
      | some elf =>
        rw [unsigned, hv] at hu
        exact (read_arch ((congrArg (strtoulIn · v) (if_pos hd)).trans hv) h).trans hu
    | fstype =>
      simp only [NumKind.read, hu] at h
      split at h
      · exact (some.inj h).symm
      · cases h
    | saddrFam =>
      simp only [NumKind.read, hu] at h
      split at h
      · exact (some.inj h).symm
      · cases h
    | perm | filetype => cases h
    | _ =>
      simp only [NumKind.read, hd, hu, hs, Bool.true_or, if_true] at h
      exact (some.inj h).symm
  | negative hminus hd hn hs =>
    cases k with
    | user | exit | arg | session =>
      simp only [NumKind.read, hd, hn, hs, Bool.or_true, Bool.false_eq_true, if_false, if_true] at h
      exact (some.inj h).symm
    | _ => cases hminus
  | hex harch hd hread =>
    subst harch
    obtain ⟨elf, hv, rfl⟩ := hread
    exact read_arch (by rw [hd]; exact hv) h

/-- Whether a text is taken does not depend on what the place held. -/
theorem taken_iff : k.Taken v ↔ ∃ value, k.read old v = some value := by
  rw [NumKind.Taken, isSome_iff_exists]
  cases k with
  | session => exact ⟨fun _ => ⟨_, rfl⟩, fun _ => ⟨_, rfl⟩⟩
  | _ => rfl

end Accepted

/-! ## What is stored -/

section Stored

variable {env : Env} {pair : CString} {flags : FilterList} {n : Nat} {f : NumField} {op : Op} {v : Bytes}

/-- **A call that succeeds** has passed the tests, and stores what the text is read as. -/
theorem stored_of_ok (hhead : fieldpairHead env n pair.bytes flags = .ok (.num f, op, v))
    (hname : ¬ f.kind.Resolves env v) {alloc : Alloc} {s s' : Builder} {r r' : RuleData}
    (hr : s.rule = some r) (hn : r.fieldCount = n)
    (hok : auditRuleFieldpairData env pair flags alloc s = .ok () s') (hr' : s'.rule = some r') :
    f.kind.Admitted env flags s.given op ∧ f.kind.Taken v ∧
      f.kind.read (r.values n) v = some (r'.values n) := by
  subst hn
  cases (auditRuleFieldpairData_ends env pair flags alloc hr).of_ok rfl hok with
  | num hhead' hnum hadded =>
    cases hhead.symm.trans hhead'
    obtain ⟨r'', hr'', -, -, -, -, hvalue⟩ := hadded
    cases hr'.symm.trans hr''
    obtain ⟨hadmitted, hread⟩ := (parseNum_ok_iff hname).mp hnum
    rw [hvalue]
    exact ⟨hadmitted, taken_iff.mpr ⟨_, hread⟩, hread⟩
  | str hhead' => cases hhead.symm.trans hhead'

/-- **A text that passes the tests** is stored. -/
theorem exists_ok (hhead : fieldpairHead env n pair.bytes flags = .ok (.num f, op, v))
    (hname : ¬ f.kind.Resolves env v) (alloc : Alloc) {s : Builder} {r : RuleData}
    (hr : s.rule = some r) (hn : r.fieldCount = n) (hadmitted : f.kind.Admitted env flags s.given op)
    (htaken : f.kind.Taken v) : ∃ s' r',
      auditRuleFieldpairData env pair flags alloc s = .ok () s' ∧ s'.rule = some r' := by
  subst hn
  obtain ⟨value, hread⟩ := taken_iff.mp htaken
  have hnum := (parseNum_ok_iff hname).mpr ⟨hadmitted, hread⟩
  -- none of the ways to fail is possible
  obtain ⟨⟨⟩, s', hok, hadds⟩ := ((auditRuleFieldpairData_ends env pair flags alloc hr).err fun e s' hfails => by
      cases hfails with
      | head h => cases hhead.symm.trans h
      | num h hnum' =>
        cases hhead.symm.trans h
        cases hnum.symm.trans hnum'
      | str h | noMemory h => cases hhead.symm.trans h).total rfl
  cases hadds with
  | num _ _ hadded =>
    obtain ⟨r', hr', -⟩ := hadded
    exact ⟨s', r', hok, hr'⟩
  | str h => cases hhead.symm.trans h

/-- **The numbers of rules**: what is accepted, other than a name, is an integer that fits and is stored
as it is, unless the text passes the tests but denotes no such integer. -/
theorem storesExactly_iff (hhead : fieldpairHead env n pair.bytes flags = .ok (.num f, op, v))
    (given : Given) (hname : ¬ f.kind.Resolves env v) :
    StoresExactly env pair flags n given f v ↔
      ¬ (f.kind.Admitted env flags given op ∧ f.kind.Taken v ∧ ¬ ∃ m, f.kind.Denotes v m) := by
  constructor
  · rintro h ⟨hadmitted, htaken, hnot⟩
    let s : Builder := ⟨given, some { RuleData.zero with fieldCount := n }, [], false⟩
    obtain ⟨s', r', hok, hr'⟩ := exists_ok hhead hname default (s := s) rfl rfl hadmitted htaken
    obtain ⟨m, hm, -⟩ := h.denotes default s s' _ r' rfl rfl rfl hok hr'
    exact hnot ⟨m, hm⟩
  · intro h
    have hstored : ∀ alloc s s' r r', s.rule = some r → r.fieldCount = n → s.given = given →
        auditRuleFieldpairData env pair flags alloc s = .ok () s' → s'.rule = some r' →
        (∃ m, f.kind.Denotes v m) ∧ ∀ m, f.kind.Denotes v m → r'.values n = toU32 m := by
      rintro alloc s s' r r' hr hn rfl hok hr'
      obtain ⟨hadmitted, htaken, hread⟩ := stored_of_ok hhead hname hr hn hok hr'
      exact ⟨by_contra fun hnot => h ⟨hadmitted, htaken, hnot⟩,
        fun m hm => read_eq_of_reads hm.reads hread⟩
    refine ⟨fun alloc s s' r r' hr hn hgiven hok hr' => ?_, ?_⟩
    · obtain ⟨⟨m, hm⟩, hvalue⟩ := hstored alloc s s' r r' hr hn hgiven hok hr'
      exact ⟨m, hm, hvalue m hm⟩
    · intro alloc s₁ s₁' s₂ s₂' r₁ r₁' r₂ r₂' hr₁ hr₂ hn₁ hn₂ hg₁ hg₂ hok₁ hok₂ hr₁' hr₂'
      obtain ⟨⟨m, hm⟩, hvalue₁⟩ := hstored alloc s₁ s₁' r₁ r₁' hr₁ hn₁ hg₁ hok₁ hr₁'
      obtain ⟨-, hvalue₂⟩ := hstored alloc s₂ s₂' r₂ r₂' hr₂ hn₂ hg₂ hok₂ hr₂'
      rw [hvalue₁ m hm, hvalue₂ m hm]

end Stored

/-- The pair `uid=0`. -/
def uidZero : CString := ⟨ascii "uid=0", by decide⟩

/-- The number of a user is stored as it is. -/
theorem storesExactly_uid :
    fieldpairHead namelessEnv 0 uidZero.bytes .exit = .ok (.num .uid, .equal, ascii "0") ∧
    StoresExactly namelessEnv uidZero .exit 0 .none .uid (ascii "0") := by
  have hhead : fieldpairHead namelessEnv 0 uidZero.bytes .exit =
    .ok (.num .uid, .equal, ascii "0") := by decide +kernel
  refine ⟨hhead, (storesExactly_iff hhead .none ?_).mpr ?_⟩
  · rintro ⟨h, -⟩
    exact absurd h (by decide)
  · rintro ⟨-, -, hnot⟩
    exact hnot ⟨0, ⟨.inl (by decide), (fun h => absurd h (by decide)), by decide, by decide⟩⟩

/-- The pair `uid=12abc`. -/
def uidTrailing : CString := ⟨ascii "uid=12abc", by decide⟩

/-- **What stands behind the digits is not looked at**: `uid=12abc` is accepted as 12. -/
theorem not_storesExactly_trailing :
    (∃ s' r', auditRuleFieldpairData namelessEnv uidTrailing .exit default
        ⟨.none, some RuleData.zero, [], false⟩ = .ok () s' ∧ s'.rule = some r' ∧ r'.values 0 = 12) ∧
    ¬ StoresExactly namelessEnv uidTrailing .exit 0 .none .uid (ascii "12abc") := by
  have hrun : ∃ s' r', auditRuleFieldpairData namelessEnv uidTrailing .exit default
      ⟨.none, some RuleData.zero, [], false⟩ = .ok () s' ∧ s'.rule = some r' ∧ r'.values 0 = 12 :=
    ⟨_, _, rfl, rfl, rfl⟩
  refine ⟨hrun, fun h => ?_⟩
  obtain ⟨s', r', hok, hr', -⟩ := hrun
  obtain ⟨m, hm, -⟩ := h.denotes _ _ s' _ r' rfl rfl rfl hok hr'
  rcases hm.whole with hwhole | ⟨harch, -⟩
  · exact absurd hwhole (by
      rw [show signedConstant (ascii "12abc") = none by decide]
      exact fun h => by cases h)
  · cases harch

end LibAudit.Rules
