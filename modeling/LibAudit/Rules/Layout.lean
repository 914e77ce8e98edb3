import LibAudit.Rules.Data

/-!
# Where the strings of a rule are

Nothing in a rule says where a string starts.  `LaidOut` is what everybody relies on: the lengths add up
to `buflen`, each string is where the lengths of those before it add up to, and the two loops that read
strings find them there.  `run_laidOut` is that this is so after any calls, whether they fail or not,
with strings that an `int` can count and system calls that are not negative.

Calls that fail are the reason for going through the arrays: they write to the place behind the last
field, but they do not count it.  `Held` only speaks of the places that are counted.
-/

namespace LibAudit.Rules

open Hoare Memory List Option Function

/-! ## Fields and their strings -/

/-- `rule->values[i]`. -/
def Field.value : Field → UInt32
  | .num _ _ value => value
  | .str _ _ text => UInt32.ofNat text.length

/-- What is in the buffer for a field. -/
def Field.text : Field → Bytes
  | .num _ _ _ => []
  | .str _ _ text => text

/-- The strings of fields, one after the other. -/
def texts (made : List Field) : Bytes := made.flatMap Field.text

@[simp] theorem texts_append (a b : List Field) : texts (a ++ b) = texts a ++ texts b :=
  flatMap_append

@[simp] theorem texts_cons (f : Field) (fs : List Field) : texts (f :: fs) = f.text ++ texts fs := rfl

@[simp] theorem texts_nil : texts [] = [] := rfl

/-- The fields that are strings, with their strings. -/
def strings (made : List Field) : List (UInt32 × Bytes) :=
  made.filterMap fun
    | .num _ _ _ => none
    | .str f _ text => some (f.code, text)

/-- The keys among the fields. -/
def keys (made : List Field) : List Bytes :=
  made.filterMap fun
    | .str .filterkey _ text => some text
    | _ => none

theorem Field.text_setPerm (perms : UInt32) (f : Field) : (f.setPerm perms).text = f.text := by
  rcases f with ⟨f, op, value⟩ | ⟨f, op, text⟩
  · cases f <;> rfl
  · rfl

theorem Field.name_setPerm (perms : UInt32) (f : Field) : (f.setPerm perms).name = f.name := by
  rcases f with ⟨f, op, value⟩ | ⟨f, op, text⟩
  · cases f <;> rfl
  · rfl

theorem Field.value_setPerm (perms : UInt32) (f : Field) :
    (f.setPerm perms).value = if f.name.code == NumField.code .perm then perms else f.value := by
  rcases f with ⟨f, op, value⟩ | ⟨f, op, text⟩
  · cases f <;> rfl
  · cases f <;> rfl

/-- Where the string of the `i`-th field starts: the lengths of the strings before it. -/
def offset (made : List Field) (i : Nat) : Nat := ((made.take i).map fun f => f.text.length).sum

/-- The fields that `audit_rule_fieldpair_data` takes for strings. -/
def isString (field : UInt32) : Bool :=
  [StrField.objUser, .objRole, .objType, .objLevLow, .objLevHigh, .watch, .dir, .subjUser, .subjRole,
    .subjType, .subjSen, .subjClr, .filterkey, .exe].any (·.code == field)

/-- The sum of `values` over the fields that are strings. -/
def stringSum (r : RuleData) : Nat :=
  ((List.range r.fieldCount).map fun i =>
    if isString (r.fields i) then (r.values i).toNat else 0).sum

/-- The rule holds the fields: the lengths of its strings add up, the strings are where the lengths
before them add up to, and that is where they are looked for. -/
structure LaidOut (r : RuleData) (made : List Field) : Prop where
  count_le : r.fieldCount ≤ maxFields
  count : r.fieldCount = made.length
  field : ∀ i f, made[i]? = some f → r.fields i = f.name.code
  buflen : r.buflen.toNat = stringSum r
  string : ∀ i f op text, made[i]? = some (.str f op text) →
    (r.values i).toNat = text.length ∧ (r.buf.drop (offset made i)).take text.length = text
  keyMatch : keyMatchKeys r = keys made
  printRule : printRuleStrings r = strings made

/-- The calls whose strings can be counted, and whose system calls are not negative. -/
def Call.Sane : Call → Prop
  | .fieldpair pair _ _ => pair.strlen < 2 ^ 31
  | .watchDir _ path _ => path.strlen + 61 * pathMax < 2 ^ 31
  | .syscall scall => 0 ≤ scall
  | _ => True

instance : (c : Call) → Decidable c.Sane
  | .fieldpair pair _ _ => inferInstanceAs (Decidable (pair.strlen < 2 ^ 31))
  | .watchDir _ path _ => inferInstanceAs (Decidable (path.strlen + 61 * pathMax < 2 ^ 31))
  | .syscall scall => inferInstanceAs (Decidable (0 ≤ scall))
  | .interfieldComp _ _ | .watchPerms _ | .syscallbyname _ => inferInstanceAs (Decidable True)

/-! ## Lengths in machine words -/

theorem toInt_eq {n : Nat} (h : n < 2 ^ 31) : toInt n = n := by
  unfold toInt
  exact Int.bmod_eq_of_le (by omega) (by omega)

theorem toU32_natCast (n : Nat) : toU32 n = UInt32.ofNat n := by
  rw [toU32]
  refine UInt32.toNat_inj.mp ?_
  rw [UInt32.toNat_ofNat', UInt32.toNat_ofNat']
  omega

theorem toNat_toU32 {n : Nat} (h : n < 2 ^ 32) : (toU32 n).toNat = n := by
  rw [toU32_natCast, UInt32.toNat_ofNat', Nat.mod_eq_of_lt h]

/-! ## What is kept -/

/-- The places that are counted hold the fields, and the buffer their strings; there is space for the
longest strings that may still come. -/
structure Held (r : RuleData) (made : List Field) : Prop where
  count : r.fieldCount = made.length
  room : made.length ≤ 63
  field : ∀ i f, made[i]? = some f → r.fields i = f.name.code
  value : ∀ i f, made[i]? = some f → r.values i = f.value
  buflen : r.buflen.toNat = (texts made).length
  buf : r.buf = texts made
  small : (texts made).length + pathMax * (63 - made.length) < 2 ^ 31
  nulFree : 0 ∉ texts made

/-- The invariant of a program that builds a rule. -/
def Inv (s : Builder) : Prop := s.overrun = false ∧ ∀ r, s.rule = some r → Held r s.made

namespace Held

variable {r : RuleData} {made : List Field}

theorem ne_count (h : Held r made) {i : Nat} {f : Field} (hi : made[i]? = some f) :
    i ≠ r.fieldCount := by
  obtain ⟨hlt, -⟩ := List.getElem?_eq_some_iff.mp hi
  have := h.count
  omega

theorem setField (h : Held r made) (a b : UInt32) : Held (r.setField a b) made where
  __ := h
  field i f hi := by
    show update r.fields r.fieldCount a i = _
    rw [update_of_ne (h.ne_count hi), h.field i f hi]

theorem setValue (h : Held r made) (a : UInt32) : Held (r.setValue a) made where
  __ := h
  value i f hi := by
    show update r.values r.fieldCount a i = _
    rw [update_of_ne (h.ne_count hi), h.value i f hi]

theorem setMask (h : Held r made) (mask : BitVec maskBits) : Held { r with mask := mask } made :=
  { h with }

theorem append (h : Held r made) (f : Field) (hlt : made.length < 63)
    (hf : r.fields r.fieldCount = f.name.code) (hlen : f.text.length ≤ pathMax)
    (hnul : 0 ∉ f.text) {r' : RuleData} (hcount : r'.fieldCount = r.fieldCount + 1)
    (hfields : r'.fields = r.fields)
    (hvalues : r'.values = update r.values r.fieldCount f.value)
    (hbuflen : r'.buflen.toNat = r.buflen.toNat + f.text.length) (hbuf : r'.buf = r.buf ++ f.text) :
    Held r' (made ++ [f]) := by
  have hplace : ∀ i g, (made ++ [f])[i]? = some g →
      (i = r.fieldCount ∧ g = f) ∨ (i ≠ r.fieldCount ∧ made[i]? = some g) := by
    intro i g hi
    rw [h.count]
    by_cases hlast : i < made.length
    · rw [List.getElem?_append_left hlast] at hi
      exact .inr ⟨by omega, hi⟩
    · rw [List.getElem?_append_right (by omega)] at hi
      obtain ⟨hz, hg⟩ := List.getElem?_eq_some_iff.mp hi
      rw [length_singleton] at hz
      exact .inl ⟨by omega, by simpa using hg.symm⟩
  constructor
  case count => rw [hcount, h.count, length_append, length_singleton]
  case room => rw [length_append, length_singleton]; omega
  case field =>
    intro i g hi
    rw [hfields]
    obtain ⟨rfl, rfl⟩ | ⟨-, hg⟩ := hplace i g hi
    · exact hf
    · exact h.field i g hg
  case value =>
    intro i g hi
    rw [hvalues]
    obtain ⟨rfl, rfl⟩ | ⟨hne, hg⟩ := hplace i g hi
    · rw [update_self]
    · rw [update_of_ne hne, h.value i g hg]
  case buflen => rw [hbuflen, h.buflen]; simp
  case buf => rw [hbuf, h.buf]; simp
  case small =>
    have hsmall := h.small
    simp only [texts_append, texts_cons, texts_nil, append_nil, length_append,
      length_singleton, pathMax] at hsmall hlen ⊢
    omega
  case nulFree =>
    simpa using ⟨h.nulFree, hnul⟩

/-- A number more: the buffer stays as it is. -/
theorem append_num (h : Held r made) (hlt : made.length < 63) {f : NumField}
    (hf : r.fields r.fieldCount = f.code) (op : Op) (value : UInt32) :
    Held (r.setValue value).countUp (made ++ [.num f op value]) :=
  h.append (.num f op value) hlt hf (Nat.zero_le _) not_mem_nil rfl rfl rfl rfl
    (append_nil _).symm

theorem append_str (h : Held r made) (hlt : made.length < 63) {f : StrField}
    (hf : r.fields r.fieldCount = f.code) (op : Op) {v : Bytes} (hlen : v.length ≤ pathMax)
    (hnul : 0 ∉ v) (fresh : Nat → UInt8) :
    let r' := r.setValue (toU32 v.length)
    let buf := resize r.buf (r.buflen + toU32 v.length).toNat fresh
    Held ({ r' with
      buflen := r.buflen + toU32 v.length
      buf := buf.take r.buflen.toNat ++ v.take v.length ++
        buf.drop (r.buflen.toNat + v.length) } : RuleData).countUp (made ++ [.str f op v]) := by
  have hsmall := h.small
  have hbl := h.buflen
  simp only [pathMax] at hsmall hlen
  have hvlen : (toU32 v.length).toNat = v.length := toNat_toU32 (by omega)
  have hsum : (r.buflen + toU32 v.length).toNat = r.buflen.toNat + v.length := by
    rw [UInt32.toNat_add, hvlen, Nat.mod_eq_of_lt (by omega)]
  have hbuf : r.buf.length = r.buflen.toNat := by rw [hbl, h.buf]
  refine h.append (.str f op v) hlt hf hlen hnul rfl rfl ?_ hsum ?_
  · rw [toU32_natCast]
    rfl
  · rw [hsum, resize, ← hbuf, take_length,
      take_of_length_le (show r.buf.length ≤ r.buf.length + v.length by omega),
      take_append_of_le_length (Nat.le_refl _), take_length, drop_eq_nil_of_le,
      append_nil]
    · rfl
    · simp

/-- Permissions updated in all their places. -/
theorem setPerms (h : Held r made) (perms : UInt32) :
    Held (r.setPerms perms) (made.map (Field.setPerm perms)) := by
  have htexts : texts (made.map (Field.setPerm perms)) = texts made := by
    rw [texts, texts, flatMap_map]
    exact flatMap_congr fun f _ => f.text_setPerm perms
  constructor
  case count => rw [length_map]; exact h.count
  case room => rw [length_map]; exact h.room
  case field =>
    intro i g hi
    rw [List.getElem?_map] at hi
    obtain ⟨f, hf, rfl⟩ := map_eq_some_iff.mp hi
    rw [Field.name_setPerm]
    exact h.field i f hf
  case value =>
    intro i g hi
    rw [List.getElem?_map] at hi
    obtain ⟨f, hf, rfl⟩ := map_eq_some_iff.mp hi
    obtain ⟨hlt, -⟩ := List.getElem?_eq_some_iff.mp hf
    have hcount : i < r.fieldCount := h.count ▸ hlt
    show (if r.isPerm i then perms else r.values i) = _
    rw [RuleData.isPerm, decide_eq_true hcount, Bool.true_and, h.field i f hf, h.value i f hf,
      Field.value_setPerm]
  case buflen => rw [htexts]; exact h.buflen
  case buf => rw [htexts]; exact h.buf
  case small => rw [htexts, length_map]; exact h.small
  case nulFree => rw [htexts]; exact h.nulFree

/-- The rule of a watch. -/
theorem watchRule {path : CString} (h : path.strlen + 61 * pathMax < 2 ^ 31) (type : StrField) :
    Held (Rules.watchRule type path.bytes)
      [.str type .equal path.bytes, .num .perm .equal allPerms] := by
  have hlen : (UInt32.ofNat path.bytes.length).toNat = path.bytes.length := by
    rw [CString.strlen, pathMax] at h
    rw [UInt32.toNat_ofNat', Nat.mod_eq_of_lt (by omega)]
  have hplace : ∀ i f, [Field.str type .equal path.bytes, .num .perm .equal allPerms][i]? = some f →
      i = 0 ∧ f = .str type .equal path.bytes ∨ i = 1 ∧ f = .num .perm .equal allPerms := by grind
  constructor
  case count => rfl
  case room => exact Nat.le_of_ble_eq_true rfl
  case field =>
    intro i f hi
    obtain ⟨rfl, rfl⟩ | ⟨rfl, rfl⟩ := hplace i f hi
    · rfl
    · rfl
  case value =>
    intro i f hi
    obtain ⟨rfl, rfl⟩ | ⟨rfl, rfl⟩ := hplace i f hi
    · rfl
    · rfl
  case buflen => simpa [Rules.watchRule, Field.text] using hlen
  case buf => simp [Rules.watchRule, Field.text]
  case small =>
    simp only [texts_cons, texts_nil, Field.text, append_nil, length_cons, length_nil]
    rw [CString.strlen] at h
    omega
  case nulFree => simpa [Field.text] using path.nulFree

/-- A rule of zeros holds nothing. -/
theorem zero : Held RuleData.zero [] where
  count := rfl
  room := by decide
  field _ _ h := by cases h
  value _ _ h := by cases h
  buflen := rfl
  buf := rfl
  small := by decide
  nulFree := not_mem_nil

end Held

/-! ## Programs -/

/-- Whether it fails or not, the program keeps the invariant. -/
def Keeps {α : Type} (m : BuildM α) : Prop := Triple Inv m (fun _ => Inv) fun _ => Inv

variable {P : Builder → Prop}

theorem theRule_spec (h : ∀ s, P s → Inv s) :
    Triple P theRule (fun r s => s.rule = some r ∧ P s) fun _ => Inv := by
  refine .get_bind fun s hs => ?_
  cases hr : s.rule with
  | none => exact .throw _ fun _ heq => heq ▸ h s hs
  | some r => exact .pure _ fun _ heq => heq ▸ ⟨hr, hs⟩

/-- Checks that are passed say something about the rule there is. -/
theorem checked_spec {α : Type} (head : Nat → Except FieldError α) : Triple Inv (checked head)
      (fun a s => Inv s ∧ ∃ r, s.rule = some r ∧ head r.fieldCount = .ok a) fun _ => Inv := by
  refine (theRule_spec fun _ => id).bind fun r => ?_
  cases hhead : head r.fieldCount with
  | error e => exact .throw _ fun _ hs => hs.2
  | ok a => exact .pure _ fun _ hs => ⟨hs.2, r, hs.1, hhead⟩

/-- The fields of `r` are those that have been added, and the next one is to be `field`. -/
def Ready (r : RuleData) (field : UInt32) (s : Builder) : Prop :=
  Inv s ∧ s.made.length < 63 ∧ Held r s.made ∧ r.fields r.fieldCount = field

theorem beginField_spec (field op : UInt32) :
    Triple (fun s => Inv s ∧ ∃ r, s.rule = some r ∧ r.fieldCount < 63) (beginField field op)
      (fun r => Ready r field) fun _ => Inv := by
  refine (theRule_spec fun _ hs => hs.1).bind fun r => ?_
  refine .bind (Q := fun _ => Ready (r.setField field op) field) (.modify fun s hs => ?_)
    fun _ => .pure _ fun s => id
  obtain ⟨hr, hinv, r', hr', hlt⟩ := hs
  obtain rfl := some.inj (hr.symm.trans hr')
  have hheld := hinv.2 r hr
  have hnext := hheld.setField field op
  refine ⟨⟨hinv.1, fun r'' hr'' => ?_⟩, hheld.count ▸ hlt, hnext, update_self ..⟩
  cases hr''
  exact hnext

theorem outOfMemory_spec {α : Type} {Q : α → Builder → Prop} :
    Triple (fun s => s.overrun = false) outOfMemory Q fun _ => Inv := by
  refine .bind (Q := fun _ => Inv) (.modify fun s hs => ⟨hs, fun r hr => ?_⟩)
    fun _ => .throw _ fun _ => id
  cases hr

variable {E : CallError → Builder → Prop}

/-- The rule is the next one, as soon as it holds the next field. -/
theorem complete_spec {r : RuleData} {f : Field} :
    Triple (fun s => s.overrun = false ∧ Held r.countUp (s.made ++ [f])) (complete r f)
      (fun _ => Inv) E := by
  refine .modify fun s ⟨hover, hheld⟩ => ⟨hover, fun r' hr => ?_⟩
  cases hr
  exact hheld

theorem putRule_spec {r : RuleData} (h : ∀ s, P s → s.overrun = false ∧ Held r s.made) :
    Triple P (putRule r) (fun _ => Inv) E := by
  refine .modify fun s hs => ⟨(h s hs).1, fun r' hr => ?_⟩
  cases hr
  exact (h s hs).2

/-- The variables of the library are not part of the rule. -/
theorem putGiven_spec {given : Given}
    (h : ∀ s, P s → P { s with given := given }) : Triple P (putGiven given) (fun _ => P) E :=
  .modify h

theorem storeString_spec {r : RuleData} {f : StrField} {op : Op} {v : Bytes} {alloc : Alloc}
    (hlen : v.length ≤ pathMax) (hnul : 0 ∉ v) :
    Triple (Ready r f.code) (storeString r f op v alloc) (fun _ => Inv) fun _ => Inv := by
  have hv : toInt v.length = v.length := toInt_eq (by rw [pathMax] at hlen; omega)
  cases alloc with
  | none =>
    simp only [storeString]
    exact outOfMemory_spec.pre fun s hs => hs.1.1
  | some fresh =>
    refine .assume (c := r.buflen.toNat < 2 ^ 31) (fun s hs => ?_) fun hsmall => ?_
    · rw [hs.2.2.1.buflen]
      exact Nat.lt_of_le_of_lt (Nat.le_add_right _ _) hs.2.2.1.small
    · have hoff : toInt r.buflen.toNat = r.buflen.toNat := toInt_eq hsmall
      have hpos : ¬ ((r.buflen.toNat : Int) < 0 ∨ (v.length : Int) < 0) := by omega
      simp only [storeString, hv, hoff, if_neg hpos]
      refine complete_spec.pre fun s hs => ⟨hs.1.1, ?_⟩
      exact hs.2.2.1.append_str hs.2.1 hs.2.2.2 op hlen hnul fresh

/-- The checks on a string end with its length. -/
theorem checkStr_ok {env : Env} {flags : FilterList} {given : Given} {op : Op} {vlen : Int}
    {f : StrField} (h : checkStr env flags given op vlen f = .ok ()) : vlen ≤ pathMax := by
  rw [checkStr] at h
  split_ifs at h with _ _ _ _ _ hlen
  exact Int.not_lt.mp hlen

theorem auditRuleFieldpairData_keeps (env : Env) {pair : CString} (h : pair.strlen < 2 ^ 31)
    (flags : FilterList) (alloc : Alloc) : Keeps (auditRuleFieldpairData env pair flags alloc) := by
  refine (checked_spec _).bind ?_
  rintro ⟨name, op, v⟩
  refine .assume (c := ∃ n, fieldpairHead env n pair.bytes flags = .ok (name, op, v))
    (fun s hs => ?_) fun ⟨n, hhead⟩ => ?_
  · obtain ⟨-, r, -, hhead⟩ := hs
    exact ⟨_, hhead⟩
  obtain ⟨-, fname, hsplit, -⟩ := fieldpairHead_ok hhead
  have hpair := splitPair_eq hsplit
  have hnul : 0 ∉ v := fun hmem => pair.nulFree (hpair ▸ mem_append_right _ hmem)
  have hvlen : toInt v.length = v.length := by
    rw [CString.strlen, hpair, length_append] at h
    exact toInt_eq (by omega)
  refine ((beginField_spec _ _).pre fun s hs => ?_).bind fun r => .read fun s₀ _ => ?_
  · obtain ⟨hinv, r, hr, hhead⟩ := hs
    exact ⟨hinv, r, hr, (fieldpairHead_ok hhead).1⟩
  cases name with
  | num f =>
    cases hnum : parseNum env flags s₀.given op v (r.values r.fieldCount) f.kind with
    | error e =>
      simp only [hnum]
      refine (putRule_spec fun s hs => ⟨hs.1.1, hs.2.2.1.setValue _⟩).bind fun _ => ?_
      exact (putGiven_spec fun _ => id).bind fun _ => .throw _ fun _ => id
    | ok value =>
      simp only [hnum]
      refine (putGiven_spec fun _ => id).bind fun _ => complete_spec.pre fun s hs => ?_
      exact ⟨hs.1.1, hs.2.2.1.append_num hs.2.1 hs.2.2.2 op value⟩
  | str f =>
    cases hstr : checkStr env flags (s₀.given.addStr f) op (toInt v.length) f with
    | error e =>
      simp only [hstr]
      exact (putGiven_spec fun _ hs => hs).bind fun _ => .throw _ fun _ hs => hs.1
    | ok u =>
      have hlen := checkStr_ok hstr
      rw [hvlen, Int.ofNat_le] at hlen
      simp only [hstr]
      exact (putGiven_spec fun _ => id).bind fun _ => storeString_spec hlen hnul

theorem compHead_ok {n : Nat} {pair : Bytes} {flags : Option FilterList}
    {fs : FieldName × FieldName × Op} (h : compHead n pair flags = .ok fs) : n < 63 := by
  rw [compHead] at h
  split at h
  · cases h
  · rename_i hn
    simpa [maxFields] using hn

theorem auditRuleInterfieldCompData_keeps (pair : CString) (flags : Option FilterList) :
    Keeps (auditRuleInterfieldCompData pair flags) := by
  refine (checked_spec _).bind ?_
  rintro ⟨f₁, f₂, op⟩
  refine ((beginField_spec _ _).pre fun s hs => ?_).bind fun r => ?_
  · obtain ⟨hinv, r, hr, hhead⟩ := hs
    exact ⟨hinv, r, hr, compHead_ok hhead⟩
  cases hvalue : compareValue f₁ f₂ with
  | none => exact .throw _ fun _ hs => hs.1
  | some value =>
    exact complete_spec.pre fun s hs => ⟨hs.1.1, hs.2.2.1.append_num hs.2.1 hs.2.2.2 op value⟩

theorem auditAddWatchDir_keeps (type : FieldName) {path : CString}
    (h : path.strlen + 61 * pathMax < 2 ^ 31) (alloc : Alloc) :
    Keeps (auditAddWatchDir type path alloc) := by
  refine .read fun s₀ _ => .ite (fun _ => .throw _ fun _ => id) fun _ => ?_
  cases type with
  | num f => exact .throw _ fun _ => id
  | str f =>
    refine .ite (fun _ => .throw _ fun _ => id) fun _ => ?_
    cases alloc with
    | none => exact outOfMemory_spec.pre fun s hs => hs.1
    | some _ =>
      refine .modify fun s hs => ⟨hs.1, fun r hr => ?_⟩
      cases hr
      exact Held.watchRule h f

theorem auditUpdateWatchPerms_keeps (perms : UInt32) : Keeps (auditUpdateWatchPerms perms) := by
  refine (theRule_spec fun _ => id).bind fun r => ?_
  have hheld : ∀ s, s.rule = some r ∧ Inv s → Held r s.made := fun s hs => hs.2.2 r hs.1
  refine .ite (fun _ => .throw _ fun _ hs => hs.2) fun _ => .ite (fun _ => ?_) fun _ => ?_
  · refine .modify fun s hs => ⟨hs.2.1, fun r' hr => ?_⟩
    cases hr
    exact (hheld s hs).setPerms perms
  · refine .ite (fun _ => .throw _ fun _ hs => hs.2) fun hn => ?_
    refine complete_spec.pre fun s hs => ⟨hs.2.1, ?_⟩
    have hlt : s.made.length < 63 := by
      rw [← (hheld s hs).count]
      simpa [maxFields] using hn
    exact ((hheld s hs).setField _ _).append_num hlt (update_self ..) .equal perms

theorem auditRuleSyscallData_keeps {scall : Int} (h : 0 ≤ scall) :
    Keeps (auditRuleSyscallData scall) := by
  refine (theRule_spec fun _ => id).bind fun r => ?_
  have hword : 0 ≤ scall.tdiv 32 := Int.tdiv_nonneg h (by decide)
  refine .ite (fun _ => .throw _ fun _ hs => hs.2) fun _ => ?_
  refine .ite (fun _ => ?_) fun hneg => absurd hword hneg
  exact putRule_spec fun s hs => ⟨hs.2.1, (hs.2.2 r hs.1).setMask _⟩

theorem auditRuleSyscallbynameData_keeps (env : Env) (scall : CString) :
    Keeps (auditRuleSyscallbynameData env scall) := by
  refine (theRule_spec fun _ => id).bind fun r => .read fun s₀ _ => ?_
  cases hmask : syscallbyname env s₀.given.elf r.mask scall.bytes with
  | none => exact .throw _ fun _ hs => hs.2
  | some mask =>
    exact putRule_spec fun s hs => ⟨hs.2.1, (hs.2.2 r hs.1).setMask _⟩

/-- Every call keeps the invariant. -/
theorem Call.program_keeps (env : Env) {c : Call} (h : c.Sane) : Keeps (c.program env) := by
  cases c with
  | fieldpair pair flags alloc => exact auditRuleFieldpairData_keeps env h flags alloc
  | interfieldComp pair flags => exact auditRuleInterfieldCompData_keeps pair flags
  | watchDir type path alloc => exact auditAddWatchDir_keeps type h alloc
  | watchPerms perms => exact auditUpdateWatchPerms_keeps perms
  | syscall scall => exact auditRuleSyscallData_keeps h
  | syscallbyname scall => exact auditRuleSyscallbynameData_keeps env scall

theorem Call.after_inv (env : Env) {c : Call} (h : c.Sane) {s : Builder} (hs : Inv s) :
    Inv (c.after env s) := by
  have hkeeps := Call.program_keeps env h s hs
  rw [Call.after]
  grind

theorem run_inv (env : Env) {calls : List Call} (h : ∀ c ∈ calls, c.Sane) {s : Builder} (hs : Inv s) :
    Inv (run env s calls) := by
  induction calls generalizing s with
  | nil => exact hs
  | cons c calls ih =>
    have hc := Call.after_inv env (h c mem_cons_self) hs
    exact ih (fun c' hc' => h c' (mem_cons_of_mem c hc')) hc

theorem start_inv (given : Given) (allocated : Bool) : Inv (start given allocated) := by
  refine ⟨rfl, fun r hr => ?_⟩
  cases allocated with
  | false => cases hr
  | true => cases hr; exact Held.zero

/-! ## Readers -/

/-- The fields that are strings. -/
def FieldName.isStr : FieldName → Bool
  | .num _ => false
  | .str _ => true

/-- Operators are not part of the numbers of fields. -/
theorem FieldName.code_and (name : FieldName) : name.code &&& ~~~auditOperators = name.code := by
  rcases name with f | f <;> cases f <;> decide

/-- The three lists of fields that are strings are the same. -/
theorem isString_code (name : FieldName) : isString name.code = name.isStr := by
  rcases name with f | f <;> cases f <;> decide

theorem keyMatchCarries_code (name : FieldName) : keyMatchCarries name.code = name.isStr := by
  rcases name with f | f <;> cases f <;> decide

theorem printRuleCarries_code (name : FieldName) : printRuleCarries name.code = name.isStr := by
  rcases name with f | f <;> cases f <;> decide

theorem printString_append {text : Bytes} (h : text.length < 2 ^ 31) (hnul : 0 ∉ text)
    (rest : Bytes) : printString (UInt32.ofNat text.length) (text ++ rest) = text := by
  have hlen : (UInt32.ofNat text.length).toNat = text.length := by
    rw [UInt32.toNat_ofNat', Nat.mod_eq_of_lt (by omega)]
  have hlt : UInt32.ofNat text.length < 2 ^ 31 := by
    rw [UInt32.lt_iff_toNat_lt, hlen]
    exact h
  rw [printString, if_pos hlt, hlen, take_left, untilNul_of_notMem hnul]

/-- The value of a string is its length, and that is not cut. -/
theorem Held.toNat_value {r : RuleData} {made : List Field} (h : Held r made) {f : StrField} {op : Op}
    {text : Bytes} (hf : .str f op text ∈ made) :
    text.length < 2 ^ 31 ∧ (Field.value (.str f op text)).toNat = text.length := by
  have hsub : text.length ≤ (texts made).length := by
    obtain ⟨a, b, rfl⟩ := append_of_mem hf
    simp only [texts_append, texts_cons, Field.text, length_append]
    omega
  have hlen : text.length < 2 ^ 31 := Nat.lt_of_le_of_lt (hsub.trans (Nat.le_add_right _ _)) h.small
  refine ⟨hlen, ?_⟩
  rw [Field.value, UInt32.toNat_ofNat', Nat.mod_eq_of_lt (by omega)]

/-- A loop from some field on finds the strings of the fields from there on, if it starts behind the
strings of the fields before, and knows which fields are strings. -/
theorem walk_held {carries : UInt32 → Bool} (hcarries : ∀ name, carries name.code = FieldName.isStr name)
    {r : RuleData} {made : List Field} (h : Held r made) (before behind : List Field)
    (hmade : made = before ++ behind) :
    walk carries r before.length (texts before).length behind.length = strings behind := by
  induction behind generalizing before with
  | nil => rfl
  | cons f behind ih =>
    have hnext := ih (before ++ [f]) (by rw [hmade, append_assoc]; rfl)
    have hplace : made[before.length]? = some f := by simp [hmade]
    have hbuf : r.buf.drop (texts before).length = f.text ++ texts behind := by
      rw [h.buf, hmade, texts_append, drop_left, texts_cons]
    simp only [length_append, length_singleton, texts_append, texts_cons, texts_nil, append_nil] at hnext
    simp only [walk, length_cons, h.field _ f hplace, FieldName.code_and, hcarries,
      h.value _ f hplace, hbuf]
    cases f with
    | num g op value => exact hnext
    | str g op text =>
      obtain ⟨hlen, hvalue⟩ := h.toNat_value (mem_of_getElem? hplace)
      have hnul : 0 ∉ text := by
        have := h.nulFree
        simp only [hmade, texts_append, texts_cons, Field.text, mem_append, not_or] at this
        exact this.2.1
      simp only [Field.name, FieldName.isStr, if_true, Field.value, Field.text] at hnext hvalue ⊢
      rw [printString_append hlen hnul, hvalue, hnext]
      rfl

theorem keys_eq (made : List Field) :
    ((strings made).filter (·.1 == StrField.code .filterkey)).map Prod.snd = keys made := by
  induction made with
  | nil => rfl
  | cons f made ih =>
    cases f with
    | num g op value => exact ih
    | str g op text =>
      cases g
      case filterkey => exact congrArg (text :: ·) ih
      all_goals exact ih

theorem stringSum_eq {r : RuleData} {made : List Field} (h : Held r made) :
    stringSum r = (texts made).length := by
  have hmap : ((List.range made.length).map fun i =>
      if isString (r.fields i) then (r.values i).toNat else 0) = made.map fun f => f.text.length := by
    refine ext_getElem (by simp) fun i hi hi' => ?_
    have hlt : i < made.length := by simpa using hi'
    have hplace : made[i]? = some made[i] := List.getElem?_eq_getElem hlt
    rw [getElem_map, getElem_map, getElem_range, h.field i _ hplace, isString_code, h.value i _ hplace]
    cases hf : made[i] with
    | num f op value => rfl
    | str f op text => exact (h.toNat_value (hf ▸ getElem_mem hlt)).2
  rw [stringSum, h.count, hmap, texts, length_flatMap]

theorem offset_eq (made : List Field) (i : Nat) : offset made i = (texts (made.take i)).length := by
  rw [offset, texts, length_flatMap]

/-- The invariant says where the strings are. -/
theorem Held.laidOut {r : RuleData} {made : List Field} (h : Held r made) : LaidOut r made := by
  have hwalk {carries : UInt32 → Bool} (hcarries : ∀ name, carries name.code = FieldName.isStr name) :
      walk carries r 0 0 r.fieldCount = strings made := by
    rw [h.count]
    exact walk_held hcarries h [] made rfl
  constructor
  case count_le => rw [h.count]; exact h.room.trans (by decide)
  case count => exact h.count
  case field => exact h.field
  case buflen => rw [h.buflen, stringSum_eq h]
  case string =>
    intro i f op text hplace
    obtain ⟨hi, hf⟩ := List.getElem?_eq_some_iff.mp hplace
    have hmade : made.take i ++ .str f op text :: made.drop (i + 1) = made := by
      rw [← hf, ← drop_eq_getElem_cons hi, take_append_drop]
    have hbuf : r.buf = texts (made.take i) ++ (text ++ texts (made.drop (i + 1))) :=
      calc r.buf = texts (made.take i ++ .str f op text :: made.drop (i + 1)) := by rw [hmade, h.buf]
        _ = _ := by rw [texts_append, texts_cons, Field.text]
    refine ⟨?_, ?_⟩
    · rw [h.value i _ hplace]
      exact (h.toNat_value (mem_of_getElem? hplace)).2
    · rw [offset_eq, hbuf, drop_left, take_left]
  case keyMatch => rw [keyMatchKeys, hwalk keyMatchCarries_code, keys_eq]
  case printRule => rw [printRuleStrings, hwalk printRuleCarries_code]

/-- **The strings of a rule are where they are looked for**: after any calls, failed or not, nothing
has been written outside of the rule, the lengths in `values` add up to `buflen`, and each string is
found by adding up the lengths before it. -/
theorem run_laidOut (env : Env) (given : Given) (allocated : Bool) (calls : List Call)
    (h : ∀ c ∈ calls, c.Sane) :
    (run env (start given allocated) calls).overrun = false ∧
    ∀ r, (run env (start given allocated) calls).rule = some r →
      LaidOut r (run env (start given allocated) calls).made := by
  obtain ⟨hover, hheld⟩ := run_inv env h (start_inv given allocated)
  exact ⟨hover, fun r hr => (hheld r hr).laidOut⟩

/-- A machine on which nothing has a name. -/
def namelessEnv : Env where
  detectMachine := some .x86_64
  excludeExtend := true
  filterFs := true
  executablePath := true
  sessionidFilter := true
  nameToUid _ := none
  nameToGid _ := none
  nameToErrno _ := none
  nameToSyscall _ _ := none
  isDir _ := false

/-- Nothing has been given. -/
def Given.none : Given := ⟨false, false, false, false, false, 0⟩

/-- A watch, a directory for a list that does not take one, a key, and permissions. -/
def watchCalls : List Call := [
  .watchDir (.str .watch) ⟨ascii "/etc/shadow", by decide⟩ (some fun _ => 0),
  .fieldpair ⟨ascii "dir=/etc", by decide⟩ .user (some fun _ => 0),
  .fieldpair ⟨ascii "key=secrets", by decide⟩ .exit (some fun _ => 0),
  .watchPerms 2]

theorem watchCalls_laidOut :
    (∀ c ∈ watchCalls, c.Sane) ∧ ∃ r, (run namelessEnv (start .none false) watchCalls).rule = some r ∧
      LaidOut r (run namelessEnv (start .none false) watchCalls).made ∧
      printRuleStrings r = [(105, ascii "/etc/shadow"), (210, ascii "secrets")] := by
  have hsane : ∀ c ∈ watchCalls, c.Sane := by decide +kernel
  have hprint : (run namelessEnv (start .none false) watchCalls).rule.any (fun r =>
      printRuleStrings r == [(105, ascii "/etc/shadow"), (210, ascii "secrets")]) = true := by
    decide +kernel
  obtain ⟨r, hr, hprint⟩ := (any_eq_true _ _).mp hprint
  exact ⟨hsane, r, hr, (run_laidOut namelessEnv .none false watchCalls hsane).2 r hr,
    beq_iff_eq.mp hprint⟩

/-- Two calls that fail leave a value and the number of a string behind, and `-32` as a system call
counts them: `field_count` is in front of the mask. -/
def negativeCalls : List Call := [
  .fieldpair ⟨ascii "saddr_fam=100", by decide⟩ .exit (some fun _ => 0),
  .fieldpair ⟨ascii "path=/etc", by decide⟩ .user (some fun _ => 0),
  .syscall (-32)]

/-- A negative number is written over the count of the fields. -/
theorem negative_syscall_not_laidOut :
    ∃ r, (run namelessEnv (start .none true) negativeCalls).rule = some r ∧
      r.buflen.toNat = 0 ∧ stringSum r = 100 ∧
      ¬ LaidOut r (run namelessEnv (start .none true) negativeCalls).made := by
  have hrun : (run namelessEnv (start .none true) negativeCalls).rule.any (fun r =>
      decide (r.buflen.toNat = 0 ∧ stringSum r = 100)) = true := by
    decide +kernel
  obtain ⟨r, hr, hsum⟩ := (any_eq_true _ _).mp hrun
  obtain ⟨hbuflen, hsum⟩ := of_decide_eq_true hsum
  refine ⟨r, hr, hbuflen, hsum, fun h => ?_⟩
  have := h.buflen
  omega

end LibAudit.Rules
