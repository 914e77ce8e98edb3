import Mathlib.Data.List.Infix
import LibAudit.Rules.Layout

/-!
# Pairs

`audit_rule_fieldpair_data` and `audit_rule_interfield_comp_data` get a field, an operator and a value as
one text.  `auditRuleFieldpairData_ends` says how a call of the first one ends, in terms of the parts.

*The split.*  The operators are looked for one after the other, those of two characters first, each with
`strstr` over the whole text.  So an operator that is found in the value can take the place of the one
that was meant.  `readAsMeant_iff`: the three parts come back exactly if no operator that is looked for
earlier occurs in the value.  That is no restriction for `!=`, but a value of `=` must not contain `!=`,
`>=`, `<=` or `&=`, and a value of `>`, `<` or `&` no equal sign at all.

*Calls that fail.*  They write to the place behind the last field, which does not count.  But some have
changed the variables of the library before they find an error: `frameOnError_iff`.
-/

namespace LibAudit.Rules

open Hoare List Option Function

/-! ## What is asked for -/

/-- The field that `v` is the value of. -/
def FieldName.Takes (env : Env) (flags : FilterList) (given : Given) (old : UInt32) (op : Op)
    (v : Bytes) : FieldName → Field → Prop
  | .num f, field => ∃ value, parseNum env flags given op v old f.kind = .ok value ∧
      field = .num f op value
  | .str f, field => field = .str f op v

/-- What has been added to the rule `r` when a field is complete. -/
def Added (s : Builder) (r : RuleData) (field : Field) (s' : Builder) : Prop :=
  ∃ r', s'.rule = some r' ∧ s'.made = s.made ++ [field] ∧
    r'.fieldCount = r.fieldCount + 1 ∧ r'.fields r.fieldCount = field.name.code ∧
    r'.fieldflags r.fieldCount = field.op.code ∧ r'.values r.fieldCount = field.value

/-- The name `f` of a field, an operator and a value are read as what they are. -/
structure ReadAsMeant (name : FieldName) (f : Bytes) (op : Op) (v : Bytes) : Prop where
  /-- The parts are found. -/
  split : splitPair (f ++ op.symbol ++ v) = some (op, f, v)
  /-- What a call that succeeds adds to the rule is made of them. -/
  recorded : ∀ env (pair : CString) flags alloc s s' r, pair.bytes = f ++ op.symbol ++ v →
    s.rule = some r → auditRuleFieldpairData env pair flags alloc s = .ok () s' →
    s'.overrun = false → ∃ field,
      name.Takes env flags s.given (r.values r.fieldCount) op v field ∧ Added s r field s'

/-- The operators that are looked for before `op`. -/
def Op.before (op : Op) : List Op := opOrder.takeWhile (· ≠ op)

/-! ## Looking for an operator -/

section Strstr

variable {pat s : Bytes}

theorem strstr_cons_of_not_isPrefix {c : UInt8} (h : pat.isPrefixOf (c :: s) = false) :
    strstr pat (c :: s) = (strstr pat s).map fun r => (c :: r.1, r.2) := by
  rw [strstr, h]
  rfl

theorem strstr_cons_eq_none {c : UInt8} (h : pat.isPrefixOf (c :: s) = false) :
    strstr pat (c :: s) = none ↔ strstr pat s = none := by
  rw [strstr_cons_of_not_isPrefix h, map_eq_none_iff]

theorem strstr_eq_none_iff (hpat : pat ≠ []) : strstr pat s = none ↔ ¬ pat <:+: s := by
  induction s with
  | nil => exact ⟨fun _ h => hpat (infix_nil.mp h), fun _ => rfl⟩
  | cons c s ih =>
    rw [infix_cons_iff, not_or, ← ih]
    by_cases hpre : pat.isPrefixOf (c :: s) = true
    · rw [strstr, if_pos hpre]
      exact ⟨(fun h => by cases h), fun h => absurd (List.isPrefixOf_iff_prefix.mp hpre) h.1⟩
    · have hno : ¬ pat <+: c :: s := fun h => hpre (List.isPrefixOf_iff_prefix.mpr h)
      rw [strstr_cons_eq_none (Bool.eq_false_iff.mpr hpre)]
      exact ⟨fun h => ⟨hno, h⟩, fun h => h.2⟩

end Strstr

/-- The characters of operators. -/
def opChars : Bytes := ascii "!&<=>"

theorem Op.symbol_head (op : Op) : ∃ c rest, op.symbol = c :: rest ∧ c ∈ opChars := by
  cases op <;> exact ⟨_, _, rfl, by decide⟩

theorem Op.symbol_ne_nil (op : Op) : op.symbol ≠ [] := by cases op <;> decide

section Name

variable {f v : Bytes} {op op' : Op}

theorem Op.not_isPrefixOf {c : UInt8} (hc : c ∉ opChars) (s : Bytes) :
    op.symbol.isPrefixOf (c :: s) = false := by
  obtain ⟨d, rest, hop, hd⟩ := op.symbol_head
  have hne : d ≠ c := fun h => hc (h ▸ hd)
  simp [hop, List.isPrefixOf, hne]

theorem strstr_name_eq_none (hf : ∀ c ∈ f, c ∉ opChars) (s : Bytes) :
    strstr op.symbol (f ++ s) = none ↔ strstr op.symbol s = none := by
  induction f with
  | nil => rfl
  | cons c f ih =>
    rw [cons_append, strstr_cons_eq_none (Op.not_isPrefixOf (hf c mem_cons_self) _)]
    exact ih fun d hd => hf d (mem_cons_of_mem _ hd)

/-- The operator behind a name is found there. -/
theorem strstr_symbol (hf : ∀ c ∈ f, c ∉ opChars) :
    strstr op.symbol (f ++ (op.symbol ++ v)) = some (f, v) := by
  induction f with
  | nil =>
    obtain ⟨c, rest, hop, -⟩ := op.symbol_head
    simp [nil_append, hop, cons_append, strstr]
  | cons c f ih =>
    rw [cons_append, strstr_cons_of_not_isPrefix
      (Op.not_isPrefixOf (hf c mem_cons_self) _), ih fun d hd => hf d (mem_cons_of_mem _ hd)]
    rfl

/-- An operator that is looked for earlier is not found at the operator itself. -/
theorem strstr_before_eq_none (hbefore : op' ∈ op.before) (hv : v.head? ≠ some 61) :
    strstr op'.symbol (op.symbol ++ v) = none ↔ strstr op'.symbol v = none := by
  cases v with
  | nil => cases op <;> cases op' <;> first | exact absurd hbefore (by decide) | decide
  | cons c v =>
    have hc : (61 == c) = false := beq_eq_false_iff_ne.mpr fun h => hv (congrArg some h.symm)
    have hsame : ∀ a : UInt8, [a, 61].isPrefixOf (a :: c :: v) = false := fun a => by
      simp [List.isPrefixOf, hc]
    -- one step over an operator of one character, two over one of two
    cases op <;> cases op' <;> first
      | exact absurd hbefore (by decide)
      | exact strstr_cons_eq_none rfl
      | exact strstr_cons_eq_none (hsame _)
      | exact (strstr_cons_eq_none rfl).trans (strstr_cons_eq_none rfl)

/-- What is found of the operators that are looked for earlier is found in the value. -/
theorem strstr_pair_eq_none (hf : ∀ c ∈ f, c ∉ opChars) (hbefore : op' ∈ op.before)
    (hv : v.head? ≠ some 61) :
    strstr op'.symbol (f ++ (op.symbol ++ v)) = none ↔ ¬ op'.symbol <:+: v := by
  rw [strstr_name_eq_none hf, strstr_before_eq_none hbefore hv, strstr_eq_none_iff op'.symbol_ne_nil]

/-! ## The split -/

theorem opOrder_eq (op : Op) : ∃ later, opOrder = op.before ++ op :: later := by
  cases op <;> exact ⟨_, rfl⟩

theorem Op.notMem_before (op : Op) : op ∉ op.before := by cases op <;> decide

/-- An operator in a pair, with what is before and what is behind it. -/
def foundIn (pair : Bytes) (op : Op) : Option (Op × Bytes × Bytes) :=
  (strstr op.symbol pair).map fun r => (op, r.1, r.2)

theorem splitPair_eq_findSome? (pair : Bytes) : splitPair pair = opOrder.findSome? (foundIn pair) := rfl

/-- **The split**: the parts come back exactly if no earlier operator is in the value. -/
theorem splitPair_eq_some_iff (hf : ∀ c ∈ f, c ∉ opChars) (hv : v.head? ≠ some 61) :
    splitPair (f ++ op.symbol ++ v) = some (op, f, v) ↔ ∀ op' ∈ op.before, ¬ op'.symbol <:+: v := by
  obtain ⟨later, horder⟩ := opOrder_eq op
  rw [splitPair_eq_findSome?, append_assoc, horder, findSome?_append]
  constructor
  · intro h op' hop'
    rw [← strstr_pair_eq_none hf hop' hv]
    by_contra hfound
    cases hsome : op.before.findSome? (foundIn (f ++ (op.symbol ++ v))) with
    | none => exact hfound (map_eq_none_iff.mp (findSome?_eq_none_iff.mp hsome op' hop'))
    | some r =>
      -- one of those before is found, and is the one that is returned
      rw [hsome] at h
      obtain ⟨op₁, hop₁, hr⟩ := exists_of_findSome?_eq_some hsome
      obtain ⟨_, -, rfl⟩ := map_eq_some_iff.mp hr
      cases h
      exact op.notMem_before hop₁
  · intro h
    have hnone : op.before.findSome? (foundIn (f ++ (op.symbol ++ v))) = none := by
      rw [findSome?_eq_none_iff]
      intro op₁ hop₁
      rw [foundIn, (strstr_pair_eq_none hf hop₁ hv).mpr (h op₁ hop₁)]
      rfl
    rw [hnone, none_or, findSome?_cons, foundIn, strstr_symbol hf]
    rfl

end Name

theorem notMem_opChars_of_name {f : Bytes} {name : FieldName} (h : auditNameToField f = some name) :
    ∀ c ∈ f, c ∉ opChars := by
  intro c hc hop
  obtain ⟨e, he, -⟩ := map_eq_some_iff.mp h
  have htest := find?_some he
  have heq : e.2 = f.map downcase := beq_iff_eq.mp htest
  have hlower : opChars.all (fun c => downcase c == c) = true := by decide
  have hnames : fieldTab.all (fun e => opChars.all fun c => !e.2.contains c) = true := by decide
  have hc' : downcase c = c := beq_iff_eq.mp (all_eq_true.mp hlower c hop)
  have hmem : c ∈ e.2 := heq ▸ mem_map.mpr ⟨c, hc, hc'⟩
  have hno := all_eq_true.mp (all_eq_true.mp hnames e (mem_of_find?_eq_some he)) c hop
  simp [hmem] at hno

/-! ## What is recorded -/

theorem toU32_toInt (n : Nat) : toU32 (toInt n) = UInt32.ofNat n := by
  rw [← toU32_natCast, toU32, toU32]
  unfold toInt
  rw [show (2 : Int) ^ 32 = (2 ^ 32 : Nat) from rfl, Int.bmod_emod]

/-- A string that is stored is complete, unless there is no memory or it is written to nowhere. -/
theorem storeString_ends (r : RuleData) (f : StrField) (op : Op) (v : Bytes) (alloc : Alloc)
    (s : Builder) :
    Triple (· = s) (storeString r f op v alloc)
      (fun _ s' => s'.overrun = false → ∃ r', s'.rule = some r' ∧
        s'.made = s.made ++ [.str f op v] ∧ r'.fieldCount = r.fieldCount + 1 ∧
        r'.fields = r.fields ∧ r'.fieldflags = r.fieldflags ∧
        r'.values r.fieldCount = UInt32.ofNat v.length)
      (fun e _ => e = .noMemory) := by
  cases alloc with
  | none =>
    simp only [storeString]
    exact .bind (Q := fun _ _ => True) (.modify fun _ _ => trivial)
      fun _ => .throw _ fun _ _ => rfl
  | some fresh =>
    simp only [storeString]
    refine .ite (fun _ => .modify fun _ _ hover => ?_) fun _ => .modify ?_
    · cases hover
    · rintro s rfl -
      refine ⟨_, rfl, rfl, rfl, rfl, rfl, ?_⟩
      show update r.values r.fieldCount (toU32 (toInt v.length)) r.fieldCount = _
      rw [update_self, toU32_toInt]

/-- How a call of `audit_rule_fieldpair_data` fails. -/
inductive FieldpairFails (env : Env) (pair : Bytes) (flags : FilterList) (r : RuleData)
    (s : Builder) : CallError → Builder → Prop
  | head {e : FieldError} (h : fieldpairHead env r.fieldCount pair flags = .error e) :
      FieldpairFails env pair flags r s (.field e) s
  | num {f : NumField} {op : Op} {v : Bytes} {e : FieldError}
      (head : fieldpairHead env r.fieldCount pair flags = .ok (.num f, op, v))
      (h : parseNum env flags s.given op v (r.values r.fieldCount) f.kind = .error e) :
      FieldpairFails env pair flags r s (.field e) { s with
        rule := some ((r.setField f.code op.code).setValue
          (refusedValue (r.values r.fieldCount) v e))
        given := s.given.refused v e }
  | str {f : StrField} {op : Op} {v : Bytes} {e : FieldError}
      (head : fieldpairHead env r.fieldCount pair flags = .ok (.str f, op, v))
      (h : checkStr env flags (s.given.addStr f) op (toInt v.length) f = .error e) :
      FieldpairFails env pair flags r s (.field e) { s with
        rule := some (r.setField f.code op.code)
        given := s.given.refusedStr f e }
  | noMemory {f : StrField} {op : Op} {v : Bytes} {s' : Builder}
      (head : fieldpairHead env r.fieldCount pair flags = .ok (.str f, op, v))
      (h : checkStr env flags (s.given.addStr f) op (toInt v.length) f = .ok ()) :
      FieldpairFails env pair flags r s .noMemory s'

variable {r : RuleData} {e : FieldError} {E : CallError → Builder → Prop}

theorem theRule_ends {s : Builder} (hr : s.rule = some r)
    : Triple (· = s) theRule (fun r' s' => s' = s ∧ r' = r) E := by
  refine .get_bind fun s' hs' => ?_
  rw [hs', hr]
  exact .pure r fun s'' hs'' => ⟨hs'', rfl⟩

/-- The checks at the beginning, on a rule that is there. -/
theorem checked_ends {α : Type} {head : Nat → Except FieldError α} {s : Builder} (hr : s.rule = some r)
    (hE : ∀ e, head r.fieldCount = .error e → E (.field e) s) :
    Triple (· = s) (checked head) (fun a s' => s' = s ∧ head r.fieldCount = .ok a) E := by
  refine (theRule_ends hr).bind fun r' => .assume (fun _ hs => hs.2) fun hr' => ?_
  subst hr'
  cases hhead : head r'.fieldCount with
  | error e => exact .throw _ fun s' hs => hs.1 ▸ hE e hhead
  | ok a => exact .pure _ fun s' hs => ⟨hs.1, rfl⟩

theorem beginField_ends {s : Builder} (hr : s.rule = some r) (field op : UInt32) :
    Triple (· = s) (beginField field op)
      (fun r' s' => r' = r.setField field op ∧ s' = { s with rule := some (r.setField field op) }) E := by
  refine (theRule_ends hr).bind fun r' => ?_
  rintro s' ⟨rfl, rfl⟩
  exact ⟨rfl, rfl⟩

/-- How a call of `audit_rule_fieldpair_data` succeeds. -/
inductive FieldpairAdds (env : Env) (pair : Bytes) (flags : FilterList) (r : RuleData)
    (s s' : Builder) : Prop
  | num {f : NumField} {op : Op} {v : Bytes} {value : UInt32}
      (head : fieldpairHead env r.fieldCount pair flags = .ok (.num f, op, v))
      (h : parseNum env flags s.given op v (r.values r.fieldCount) f.kind = .ok value)
      (added : Added s r (.num f op value) s')
  | str {f : StrField} {op : Op} {v : Bytes}
      (head : fieldpairHead env r.fieldCount pair flags = .ok (.str f, op, v))
      (h : checkStr env flags (s.given.addStr f) op (toInt v.length) f = .ok ())
      (added : s'.overrun = false → Added s r (.str f op v) s')

/-- **What a call of `audit_rule_fieldpair_data` does.** -/
theorem auditRuleFieldpairData_ends (env : Env) (pair : CString) (flags : FilterList) (alloc : Alloc)
    {s : Builder} (hr : s.rule = some r) :
    Triple (· = s) (auditRuleFieldpairData env pair flags alloc)
      (fun _ => FieldpairAdds env pair.bytes flags r s)
      (FieldpairFails env pair.bytes flags r s) := by
  refine .bind (Q := fun hd s' => s' = s ∧
    fieldpairHead env r.fieldCount pair.bytes flags = .ok hd) (checked_ends hr ?_) fun hd =>
    .assume (fun _ hs => hs.2) fun hhead => ?_
  · intro e he
    exact .head he
  obtain ⟨name, op, v⟩ := hd
  refine .bind (Q := fun r' s' => r' = r.setField name.code op.code ∧
    s' = { s with rule := some (r.setField name.code op.code) })
    ((beginField_ends hr _ _).pre fun _ hs => hs.1) fun r' =>
    .assume (fun _ hs => hs.1) fun hr' => .get_bind fun s₁ hs₁ => ?_
  obtain ⟨-, rfl⟩ := hs₁
  subst hr'
  cases name with
  | num f =>
    cases hnum : parseNum env flags s.given op v (r.values r.fieldCount) f.kind with
    | error e =>
      simp only [RuleData.setField, hnum]
      rintro s' rfl
      exact .num hhead hnum
    | ok value =>
      simp only [RuleData.setField, hnum]
      rintro s' rfl
      exact .num hhead hnum ⟨_, rfl, rfl, rfl, update_self .., update_self .., update_self ..⟩
  | str f =>
    cases hstr : checkStr env flags (s.given.addStr f) op (toInt v.length) f with
    | error e =>
      simp only [hstr]
      rintro s' rfl
      exact .str hhead hstr
    | ok u =>
      simp only [hstr]
      refine .bind (Q := fun _ s' => s' = { s with
        rule := some (r.setField f.code op.code), given := s.given.addStr f })
        (.modify fun s' hs' => hs' ▸ rfl) fun _ => ?_
      refine (storeString_ends _ f op v alloc _).weaken ?_ ?_
      · intro _ s' hstored
        refine .str hhead hstr fun hover => ?_
        obtain ⟨r', hr', hmade, hcount, hfields, hflags, hvalues⟩ := hstored hover
        refine ⟨r', hr', hmade, hcount, ?_, ?_, hvalues⟩
        · rw [hfields]
          exact update_self ..
        · rw [hflags]
          exact update_self ..
      · rintro e s' rfl
        exact .noMemory hhead hstr

/-- **When a pair is read as meant.**  For every known name of a field, every operator and every value
that is not empty and does not start with an equal sign: exactly if no operator that is looked for
before this one is in the value. -/
theorem readAsMeant_iff {name : FieldName} {f v : Bytes} (op : Op)
    (hname : auditNameToField f = some name) (hv : v.head? ≠ some 61) :
    ReadAsMeant name f op v ↔ ∀ op' ∈ op.before, ¬ op'.symbol <:+: v := by
  have hf := notMem_opChars_of_name hname
  refine ⟨fun h => (splitPair_eq_some_iff hf hv).mp h.split, fun h => ?_⟩
  have hsplit := (splitPair_eq_some_iff hf hv).mpr h
  refine ⟨hsplit, fun env pair flags alloc s s' r hpair hr hok hover => ?_⟩
  have hparts : ∀ {name' op' v'},
      fieldpairHead env r.fieldCount pair.bytes flags = .ok (name', op', v') →
      name' = name ∧ op' = op ∧ v' = v := by
    intro name' op' v' hhead
    rw [hpair] at hhead
    obtain ⟨-, f', hsplit', hname'⟩ := fieldpairHead_ok hhead
    cases hsplit.symm.trans hsplit'
    cases hname.symm.trans hname'
    exact ⟨rfl, rfl, rfl⟩
  cases (auditRuleFieldpairData_ends env pair flags alloc hr).of_ok rfl hok with
  | num hhead hnum hadded =>
    obtain ⟨rfl, rfl, rfl⟩ := hparts hhead
    exact ⟨_, ⟨_, hnum, rfl⟩, hadded⟩
  | str hhead _ hadded =>
    obtain ⟨rfl, rfl, rfl⟩ := hparts hhead
    exact ⟨_, rfl, hadded hover⟩

/-- A path is read as it is meant. -/
theorem readAsMeant_path : ReadAsMeant (.str .watch) (ascii "path") .equal (ascii "/etc/passwd") :=
  (readAsMeant_iff .equal (by decide) (by decide)).mpr (by decide)

/-- **A path with `!=` in it is not**: it is taken for the value of a field `path=/etc/a`. -/
theorem not_readAsMeant_path : auditNameToField (ascii "path") = some (.str .watch) ∧
    ¬ ReadAsMeant (.str .watch) (ascii "path") .equal (ascii "/etc/a!=b") :=
  ⟨by decide, fun h => absurd h.split (by decide)⟩

/-! ## Calls that fail -/

/-- What counts of a rule is the same. -/
structure SameRule (r r' : RuleData) : Prop where
  fieldCount : r'.fieldCount = r.fieldCount
  fields : ∀ i < r.fieldCount, r'.fields i = r.fields i
  values : ∀ i < r.fieldCount, r'.values i = r.values i
  fieldflags : ∀ i < r.fieldCount, r'.fieldflags i = r.fieldflags i
  buflen : r'.buflen = r.buflen
  buf : r'.buf = r.buf
  flags : r'.flags = r.flags
  action : r'.action = r.action
  mask : r'.mask = r.mask

/-- A call of one of the two functions, with a pair that may be `NULL`. -/
inductive PairCall where
  | fieldpair (pair : Option CString) (flags : FilterList) (alloc : Alloc)
  | interfieldComp (pair : Option CString) (flags : Option FilterList)

def PairCall.program (env : Env) : PairCall → BuildM Unit
  | .fieldpair (some pair) flags alloc => auditRuleFieldpairData env pair flags alloc
  | .interfieldComp (some pair) flags => auditRuleInterfieldCompData pair flags
  | _ => throw (.field .filterMissing)

/-- If the call fails, but not for want of memory, the rule and the variables of the library are the
same. -/
def FrameOnError (env : Env) (s : Builder) (r : RuleData) (c : PairCall) : Prop :=
  ∀ e s', c.program env s = .error e s' → e ≠ .noMemory →
    s'.given = s.given ∧ ∃ r', s'.rule = some r' ∧ SameRule r r'

/-- A value that is refused after a variable of the library has been changed. -/
inductive Marks (env : Env) (flags : FilterList) (given : Given) : FieldName → Op → Bytes → Prop
  | path {f : StrField} {op : Op} {v : Bytes} (field : f = .watch ∨ f = .dir) (list : flags = .exit)
      (long : pathMax < toInt v.length) (fresh : given.perm = false) : Marks env flags given (.str f) op v
  | exe {op : Op} {v : Bytes} (supported : env.executablePath = true)
      (operator : op = .notEqual ∨ op = .equal) (long : pathMax < toInt v.length)
      (fresh : given.exe = false) : Marks env flags given (.str .exe) op v
  | arch {op : Op} {v : Bytes} (first : given.syscall = false) (operator : op = .notEqual ∨ op = .equal)
      (digit : startsDigit v = true)
      (unknown : ∀ elf, strtoulIn 0 v = some elf → auditElfToMachine elf.toUInt32 = none)
      (fresh : given.elf ≠ unsigned v) : Marks env flags given (.num .arch) op v

/-- The call gets to such a value. -/
def PairCall.Marks (env : Env) (given : Given) (fieldCount : Nat) : PairCall → Prop
  | .fieldpair (some pair) flags _ => ∃ name op v,
      fieldpairHead env fieldCount pair.bytes flags = .ok (name, op, v) ∧
        Rules.Marks env flags given name op v
  | _ => False

section Frame

variable {env : Env} {flags : FilterList} {given : Given} {op : Op} {v : Bytes} {old : UInt32}

theorem SameRule.refl (r : RuleData) : SameRule r r :=
  ⟨rfl, fun _ _ => rfl, fun _ _ => rfl, fun _ _ => rfl, rfl, rfl, rfl, rfl, rfl⟩

/-- The place behind the last field does not count. -/
theorem SameRule.setField (r : RuleData) (field op : UInt32) : SameRule r (r.setField field op) where
  fieldCount := rfl
  fields _ hi := update_of_ne hi.ne _ _
  values _ _ := rfl
  fieldflags _ hi := update_of_ne hi.ne _ _
  buflen := rfl
  buf := rfl
  flags := rfl
  action := rfl
  mask := rfl

theorem SameRule.setValue {r' : RuleData} (h : SameRule r r') (value : UInt32) :
    SameRule r (r'.setValue value) :=
  { h with values := fun i hi => (update_of_ne (h.fieldCount ▸ hi.ne) _ _).trans (h.values i hi) }

theorem Given.refused_eq_iff (e : FieldError) : given.refused v e = given ↔
    ¬ (e = .elfUnknown ∧ startsDigit v = true ∧ given.elf ≠ unsigned v) := by
  by_cases he : e = .elfUnknown
  · subst he
    by_cases hd : startsDigit v = true
    · obtain ⟨syscall, perm, exe, filterfs, arch, elf⟩ := given
      simp [Given.refused, hd, eq_comm]
    · simp [Given.refused, hd]
  · have hsame : given.refused v e = given := by
      cases e
      case elfUnknown => exact absurd rfl he
      all_goals rfl
    simp [hsame, he]

theorem eq_of_elim_error {x : Option UInt32} {e' : FieldError}
    (h : x.elim (.error e) Except.ok = .error e') : e = e' := by
  cases x with
  | none => exact Except.error.inj h
  | some a => cases h

/-- Only an architecture is refused for want of a machine. -/
theorem parseNum_elfUnknown_iff (hdigit : startsDigit v = true) (k : NumKind) :
    parseNum env flags given op v old k = .error .elfUnknown ↔ k = .arch ∧ given.syscall = false ∧
      (op = .notEqual ∨ op = .equal) ∧
      ∀ elf, strtoulIn 0 v = some elf → auditElfToMachine elf.toUInt32 = none := by
  cases k
  case arch =>
    cases hsys : given.syscall with
    | true => simp [parseNum, hsys]
    | false =>
      by_cases hop : op ≠ .notEqual ∧ op ≠ .equal
      · simp [parseNum, hsys, hop]
      · have hop' : op = .notEqual ∨ op = .equal := by
          by_contra h
          exact hop (not_or.mp h)
        cases hv : strtoulIn 0 v with
        | none => simp [parseNum, hsys, hop, hop', hdigit, hv]
        | some elf =>
          cases hm : auditElfToMachine elf.toUInt32 <;>
            simp [parseNum, hsys, hop, hop', hdigit, hv, hm]
  all_goals
    refine ⟨fun h => ?_, fun h => by cases h.1⟩
    exfalso
    unfold parseNum at h
    dsimp only at h
    repeat' split at h
    all_goals first
      | cases h
      | cases eq_of_elim_error h

theorem NumField.kind_eq_arch_iff (f : NumField) : f.kind = .arch ↔ f = .arch := by
  cases f <;> simp [NumField.kind]

/-- A number that is refused leaves a mark exactly if it is an architecture of that kind. -/
theorem refused_eq_iff {f : NumField} (h : parseNum env flags given op v old f.kind = .error e) :
    given.refused v e = given ↔ ¬ Marks env flags given (.num f) op v := by
  rw [Given.refused_eq_iff, not_iff_not]
  constructor
  · rintro ⟨rfl, hdigit, helf⟩
    obtain ⟨hkind, hsys, hop, hunknown⟩ := (parseNum_elfUnknown_iff hdigit _).mp h
    rw [f.kind_eq_arch_iff.mp hkind]
    exact .arch hsys hop hdigit hunknown helf
  · intro hmarks
    cases hmarks with
    | arch hsys hop hdigit hunknown helf =>
      have herr : parseNum env flags given op v old (NumField.kind .arch) = .error .elfUnknown :=
        (parseNum_elfUnknown_iff hdigit .arch).mpr ⟨rfl, hsys, hop, hunknown⟩
      exact ⟨Except.error.inj (h.symm.trans herr), hdigit, helf⟩

variable {f : StrField}

theorem Given.addStr_path_eq_iff (hf : f = .watch ∨ f = .dir) :
    given.addStr f = given ↔ given.perm = true := by
  obtain ⟨syscall, perm, exe, filterfs, arch, elf⟩ := given
  rcases hf with rfl | rfl <;> simp [Given.addStr, eq_comm]

theorem Given.addStr_exe_eq_iff : given.addStr .exe = given ↔ given.exe = true := by
  obtain ⟨syscall, perm, exe, filterfs, arch, elf⟩ := given
  simp [Given.addStr, eq_comm]

theorem checkStr_path_error (hf : f = .watch ∨ f = .dir) {vlen : Int}
    (h : checkStr env flags given op vlen f = .error e) :
    (flags ≠ .exit ∧ e = .exitOnly) ∨ (flags = .exit ∧ pathMax < vlen ∧ e = .strTooLong) := by
  have hnot : f ≠ .exe ∧ f ≠ .filterkey ∧ f.exitOnly = true := by rcases hf with rfl | rfl <;> decide
  rw [checkStr] at h
  simp only [hnot.1, hnot.2.1, hnot.2.2, true_and, false_and, if_false] at h
  split_ifs at h with hlist hlong
  · exact .inl ⟨hlist, (Except.error.inj h).symm⟩
  · exact .inr ⟨not_not.mp hlist, hlong, (Except.error.inj h).symm⟩

theorem checkStr_exe_error {vlen : Int} (h : checkStr env flags given op vlen .exe = .error e) :
    (env.executablePath = false ∧ e = .fieldNoSupport) ∨
    (¬ (op = .notEqual ∨ op = .equal) ∧ e = .opEqNotEq) ∨
    (env.executablePath = true ∧ (op = .notEqual ∨ op = .equal) ∧ pathMax < vlen ∧
      e = .strTooLong) := by
  have hkey : StrField.exe ≠ .filterkey := by decide
  have hlist : StrField.exitOnly .exe = false := rfl
  rw [checkStr] at h
  simp only [hkey, hlist, true_and, false_and, if_false, Bool.false_eq_true] at h
  split_ifs at h with hsupp hop hlong
  · exact .inl ⟨hsupp, (Except.error.inj h).symm⟩
  · exact .inr (.inl ⟨not_or.mpr hop, (Except.error.inj h).symm⟩)
  · refine .inr (.inr ⟨Bool.eq_true_of_not_eq_false hsupp, ?_, hlong, (Except.error.inj h).symm⟩)
    by_contra hne
    exact hop (not_or.mp hne)

/-- A string that is refused leaves a mark exactly if it is too long, and the first of its kind. -/
theorem refusedStr_eq_iff (h : checkStr env flags (given.addStr f) op (toInt v.length) f = .error e) :
    given.refusedStr f e = given ↔ ¬ Marks env flags given (.str f) op v := by
  by_cases hpath : f = .watch ∨ f = .dir
  · obtain ⟨hlist, rfl⟩ | ⟨hlist, hlong, rfl⟩ := checkStr_path_error hpath h
    · refine ⟨fun _ hmarks => ?_, fun _ => rfl⟩
      cases hmarks with
      | path _ hexit => exact hlist hexit
      | exe => simp at hpath
    · show given.addStr f = given ↔ _
      rw [Given.addStr_path_eq_iff hpath]
      constructor
      · intro hperm hmarks
        cases hmarks with
        | path _ _ _ hfresh => simp [hperm] at hfresh
        | exe => simp at hpath
      · intro hmarks
        by_contra hperm
        exact hmarks (.path hpath hlist hlong (Bool.eq_false_of_not_eq_true hperm))
  · by_cases hexe : f = .exe
    · subst hexe
      obtain ⟨hsupp, rfl⟩ | ⟨hop, rfl⟩ | ⟨hsupp, hop, hlong, rfl⟩ := checkStr_exe_error h
      · refine ⟨fun _ hmarks => ?_, fun _ => rfl⟩
        cases hmarks with
        | path hf => exact hpath hf
        | exe hyes => simp [hsupp] at hyes
      · refine ⟨fun _ hmarks => ?_, fun _ => rfl⟩
        cases hmarks with
        | path hf => exact hpath hf
        | exe _ hyes => exact hop hyes
      · show given.addStr .exe = given ↔ _
        rw [Given.addStr_exe_eq_iff]
        constructor
        · intro hyes hmarks
          cases hmarks with
          | path hf => exact hpath hf
          | exe _ _ _ hfresh => simp [hyes] at hfresh
        · intro hmarks
          by_contra hno
          exact hmarks (.exe hsupp hop hlong (Bool.eq_false_of_not_eq_true hno))
    · have hadd : given.addStr f = given := by
        cases f
        case watch => exact absurd (.inl rfl) hpath
        case dir => exact absurd (.inr rfl) hpath
        case exe => exact absurd rfl hexe
        all_goals rfl
      have hsame : given.refusedStr f e = given := by
        unfold Given.refusedStr
        split
        all_goals first
          | rfl
          | exact hadd
      refine ⟨fun _ hmarks => ?_, fun _ => hsame⟩
      cases hmarks with
      | path hf => exact hpath hf
      | exe => exact hexe rfl

theorem Marks.parseNum_error {f : NumField} (h : Marks env flags given (.num f) op v) (old : UInt32) :
    ∃ e, parseNum env flags given op v old f.kind = .error e := by
  cases h with
  | arch hsys hop hdigit hunknown helf =>
    exact ⟨_, (parseNum_elfUnknown_iff hdigit .arch).mpr ⟨rfl, hsys, hop, hunknown⟩⟩

/-- A string that leaves a mark is refused. -/
theorem Marks.checkStr_error (h : Marks env flags given (.str f) op v) :
    ∃ e, checkStr env flags (given.addStr f) op (toInt v.length) f = .error e := by
  cases h with
  | path hf hlist hlong hperm =>
    refine ⟨.strTooLong, ?_⟩
    rcases hf with rfl | rfl <;> simp [checkStr, hlist, hlong]
  | exe hsupp hop hlong hexe =>
    refine ⟨.strTooLong, ?_⟩
    rcases hop with rfl | rfl <;> simp [checkStr, hsupp, hlong, StrField.exitOnly]

end Frame

theorem auditRuleInterfieldCompData_ends (pair : CString) (flags : Option FilterList) {s : Builder}
    (hr : s.rule = some r) :
    Triple (· = s) (auditRuleInterfieldCompData pair flags) (fun _ _ => True)
      (fun _ s' => s'.given = s.given ∧ ∃ r', s'.rule = some r' ∧ SameRule r r') := by
  refine .bind (Q := fun hd s' => s' = s ∧ compHead r.fieldCount pair.bytes flags = .ok hd)
    (checked_ends hr fun _ _ => ⟨rfl, r, hr, SameRule.refl r⟩) fun hd => ?_
  obtain ⟨f₁, f₂, op⟩ := hd
  refine .bind ((beginField_ends hr _ _).pre fun _ hs => hs.1) fun r' => ?_
  cases hvalue : compareValue f₁ f₂ with
  | none =>
    refine .throw _ fun s' hs => ?_
    rw [hs.2]
    exact ⟨rfl, _, rfl, SameRule.setField r _ _⟩
  | some value => exact .modify fun _ _ => trivial

/-- A run has one end. -/
theorem frameOnError_of_run {env : Env} {s s₁ : Builder} {c : PairCall} {e : CallError}
    (hrun : c.program env s = .error e s₁) : FrameOnError env s r c ↔
      (e ≠ .noMemory → s₁.given = s.given ∧ ∃ r', s₁.rule = some r' ∧ SameRule r r') := by
  refine ⟨fun h => h e s₁ hrun, fun h e' s' hrun' => ?_⟩
  cases hrun.symm.trans hrun'
  exact h

/-- What is left by a call that fails, case by case. -/
theorem FieldpairFails.frame_iff {env : Env} {pair : CString} {flags : FilterList} {alloc : Alloc}
    {s s₁ : Builder} {e : CallError} (hr : s.rule = some r)
    (h : FieldpairFails env pair.bytes flags r s e s₁) :
    (e ≠ .noMemory → s₁.given = s.given ∧ ∃ r', s₁.rule = some r' ∧ SameRule r r') ↔
      ¬ (PairCall.fieldpair (some pair) flags alloc).Marks env s.given r.fieldCount := by
  have hmarks : ∀ {name op v}, fieldpairHead env r.fieldCount pair.bytes flags = .ok (name, op, v) →
      ((PairCall.fieldpair (some pair) flags alloc).Marks env s.given r.fieldCount ↔
        Marks env flags s.given name op v) := by
    refine fun hhead => ⟨?_, fun h => ⟨_, _, _, hhead, h⟩⟩
    rintro ⟨name', op', v', hhead', h⟩
    cases hhead.symm.trans hhead'
    exact h
  cases h with
  | head herr =>
    refine ⟨?_, fun _ _ => ⟨rfl, r, hr, SameRule.refl r⟩⟩
    rintro - ⟨name, op, v, hhead, -⟩
    cases herr.symm.trans hhead
  | num hhead herr =>
    rw [hmarks hhead, ← refused_eq_iff herr]
    exact ⟨fun h => (h (fun h => by cases h)).1,
      fun h _ => ⟨h, _, rfl, (SameRule.setField r _ _).setValue _⟩⟩
  | str hhead herr =>
    rw [hmarks hhead, ← refusedStr_eq_iff herr]
    exact ⟨fun h => (h (fun h => by cases h)).1, fun h _ => ⟨h, _, rfl, SameRule.setField r _ _⟩⟩
  | noMemory hhead hok =>
    refine ⟨fun _ h => ?_, fun _ h => absurd rfl h⟩
    obtain ⟨e, herr⟩ := ((hmarks hhead).mp h).checkStr_error
    cases hok.symm.trans herr

/-- **When a call that fails changes nothing**: unless a path or the name of a program is too long, or an
architecture is a number that stands for none.  Those have set a variable of the library. -/
theorem frameOnError_iff (env : Env) {s : Builder} {r : RuleData} (hr : s.rule = some r)
    (c : PairCall) : FrameOnError env s r c ↔ ¬ c.Marks env s.given r.fieldCount := by
  have hnull : ∀ c, c.program env = throw (.field .filterMissing) → FrameOnError env s r c := by
    intro c hc e s' hrun _
    rw [hc] at hrun
    cases hrun
    exact ⟨rfl, r, hr, SameRule.refl r⟩
  rcases c with ⟨_ | pair, flags, alloc⟩ | ⟨_ | pair, flags⟩
  · exact ⟨fun _ => id, fun _ => hnull _ rfl⟩
  · have hends := auditRuleFieldpairData_ends env pair flags alloc hr s rfl
    cases hrun : auditRuleFieldpairData env pair flags alloc s with
    | ok u s₁ =>
      rw [hrun] at hends
      refine ⟨fun _ => ?_, fun _ e s' hrun' => by cases hrun.symm.trans hrun'⟩
      rintro ⟨name, op, v, hhead, hmarks⟩
      cases hends with
      | num hhead' hnum =>
        cases hhead.symm.trans hhead'
        obtain ⟨e, herr⟩ := hmarks.parseNum_error (r.values r.fieldCount)
        cases hnum.symm.trans herr
      | str hhead' hstr =>
        cases hhead.symm.trans hhead'
        obtain ⟨e, herr⟩ := hmarks.checkStr_error
        cases hstr.symm.trans herr
    | error e s₁ =>
      rw [hrun] at hends
      have hprog : (PairCall.fieldpair (some pair) flags alloc).program env s = .error e s₁ := hrun
      exact (frameOnError_of_run hprog).trans (hends.frame_iff hr)
  · exact ⟨fun _ => id, fun _ => hnull _ rfl⟩
  · refine ⟨fun _ => id, fun _ e s' hrun _ => ?_⟩
    have hends := auditRuleInterfieldCompData_ends pair flags hr s rfl
    rw [show auditRuleInterfieldCompData pair flags s = .error e s' from hrun] at hends
    exact hends

/-- A comparison of a user with a group fails and changes nothing. -/
theorem frameOnError_compare : FrameOnError namelessEnv (start .none true) RuleData.zero
    (.interfieldComp (some ⟨ascii "uid=gid", by decide⟩) (some .exit)) :=
  (frameOnError_iff namelessEnv rfl _).mpr id

/-- An architecture that there is not. -/
def archFive : PairCall := .fieldpair (some ⟨ascii "arch=5", by decide⟩) .exit none

/-- **An architecture that there is not fails and stays recorded**, for the system calls to come. -/
theorem not_frameOnError_arch :
    (∃ s', archFive.program namelessEnv (start .none true) = .error (.field .elfUnknown) s' ∧
      s'.given.elf = 5) ∧
    ¬ FrameOnError namelessEnv (start .none true) RuleData.zero archFive := by
  refine ⟨⟨_, rfl, rfl⟩, fun h => ?_⟩
  have hgiven := (h (.field .elfUnknown) _ rfl fun h => by cases h).1
  exact absurd (congrArg Given.elf hgiven) (by decide)

end LibAudit.Rules
