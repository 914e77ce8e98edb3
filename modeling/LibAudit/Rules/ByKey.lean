import LibAudit.Rules.Pairs

/-!
# Rules with a key: `auditctl -D -k` and `auditctl -l -k`

Both ask the kernel for its rules and keep those that `key_match` accepts.  It looks for the key with
`strstr` in the text of a key field, which joins all keys of the rule, so it accepts a rule as soon as
the key occurs anywhere in them: `selects_iff`.  What `-D` has kept is sent back rule by rule, up to the
first request that fails.
-/

namespace LibAudit.Rules

open List

/-- A reply of the kernel to the request for its rules. -/
inductive Reply where
  | rule (r : RuleData)
  | ack
  | done

/-- The number of times that there may be no reply in a tenth of a second. -/
def replyTimeout : Nat := 40

/-- The loop of `delete_all_rules`, in its round `i`, or that of `get_reply`, and of
`audit_print_reply` in it: the rules that are kept.  `none` is no reply. -/
def keptRules (key : Bytes) (i : Nat) : List (Option Reply) → List RuleData
  | [] => []
  | reply :: replies =>
    if replyTimeout ≤ i then []
    else match reply with
      | none => keptRules key (i + 1) replies
      | some .done => []
      | some .ack => keptRules key 1 replies
      | some (.rule r) =>
        if keyMatch key r then r :: keptRules key 1 replies else keptRules key 1 replies

/-- The key that `setopt` leaves for `-k arg`, which `strncat` appends to an empty one. -/
def givenKey (arg : CString) : Bytes := arg.bytes.take maxKeyLen

/-- `delete_all_rules`: the rules in the requests that are sent, if `taken n` is whether `audit_send`
succeeds for the one with number `n`. -/
def deleteAllRulesSent (key : Bytes) (replies : List (Option Reply)) (taken : Nat → Bool) :
    List RuleData :=
  takeThrough taken (keptRules key 0 replies)

/-- `get_reply`: the rules that `print_rule` is called for. -/
def getReplyPrinted (key : Bytes) (replies : List (Option Reply)) : List RuleData :=
  keptRules key 0 replies

/-- From round `i` on, the kernel returns all these rules before the timeout. -/
inductive Returns : Nat → List (Option Reply) → List RuleData → Prop
  | done {i : Nat} (replies : List (Option Reply)) : i < replyTimeout →
      Returns i (some .done :: replies) []
  | none {i : Nat} {replies : List (Option Reply)} {rs : List RuleData} : i < replyTimeout →
      Returns (i + 1) replies rs → Returns i (none :: replies) rs
  | ack {i : Nat} {replies : List (Option Reply)} {rs : List RuleData} : i < replyTimeout →
      Returns 1 replies rs → Returns i (some .ack :: replies) rs
  | rule {i : Nat} {replies : List (Option Reply)} {rs : List RuleData} (r : RuleData) :
      i < replyTimeout → Returns 1 replies rs → Returns i (some (.rule r) :: replies) (r :: rs)

/-- What is kept of all the rules. -/
theorem Returns.keptRules {key : Bytes} {i : Nat} {replies : List (Option Reply)} {rs : List RuleData}
    (h : Returns i replies rs) : keptRules key i replies = rs.filter (keyMatch key) := by
  induction h with
  | done replies hi => rw [Rules.keptRules, if_neg (Nat.not_le.mpr hi), filter_nil]
  | none hi _ ih => rw [Rules.keptRules, if_neg (Nat.not_le.mpr hi), ih]
  | ack hi _ ih => rw [Rules.keptRules, if_neg (Nat.not_le.mpr hi), ih]
  | rule r hi _ ih => rw [Rules.keptRules, if_neg (Nat.not_le.mpr hi), ih, filter_cons]

/-! ## Rules and their keys -/

/-- A rule of the kernel, with its fields. -/
structure KernelRule where
  data : RuleData
  fields : List Field
  laidOut : LaidOut data fields

/-- `AUDIT_KEY_SEPARATOR`. -/
def keySeparator : UInt8 := 1

/-- The rule has `k` as one of its keys, which are joined in its key fields. -/
def KernelRule.HasKey (r : KernelRule) (k : Bytes) : Prop :=
  ∃ text ∈ keys r.fields, k ∈ words keySeparator text

/-- The key occurs in a key field, maybe as a part of something else. -/
def KernelRule.Mentions (r : KernelRule) (k : Bytes) : Prop := ∃ text ∈ keys r.fields, k <:+: text

instance (r : KernelRule) (k : Bytes) : Decidable (r.HasKey k) :=
  inferInstanceAs (Decidable (∃ text ∈ _, _))

theorem KernelRule.HasKey.mentions {r : KernelRule} {k : Bytes} (h : r.HasKey k) : r.Mentions k := by
  obtain ⟨text, htext, hk⟩ := h
  exact ⟨text, htext, infix_of_mem_words hk⟩

/-- What `key_match` looks for. -/
theorem keyMatch_iff {r : KernelRule} {k : Bytes} (hk : k ≠ []) :
    keyMatch k r.data = true ↔ r.Mentions k := by
  have hempty : k.isEmpty = false := by simpa using hk
  simp only [keyMatch, hempty, Bool.false_or, any_eq_true, r.laidOut.keyMatch,
    Option.isSome_iff_ne_none, ne_eq, strstr_eq_none_iff hk, not_not, KernelRule.Mentions]

/-- The rules with this key. -/
def rulesWith (arg : CString) (rules : List KernelRule) : List KernelRule :=
  rules.filter fun r => r.HasKey arg.bytes

/-- The rules with the key, and no others, are deleted and listed, each once and unchanged. -/
structure Selects (arg : CString) (rules : List KernelRule) (replies : List (Option Reply))
    (taken : Nat → Bool) : Prop where
  deleted : deleteAllRulesSent (givenKey arg) replies taken = (rulesWith arg rules).map KernelRule.data
  listed : getReplyPrinted (givenKey arg) replies = (rulesWith arg rules).map KernelRule.data

/-- **Exactly the rules with the key are selected if and only if** what is left of it occurs in no other
rule, and no request to delete one of them fails but the last. -/
theorem selects_iff {arg : CString} (harg : arg.bytes ≠ []) {rules : List KernelRule}
    {replies : List (Option Reply)} (h : Returns 0 replies (rules.map KernelRule.data))
    (taken : Nat → Bool) : Selects arg rules replies taken ↔
      (∀ r ∈ rules, r.Mentions (givenKey arg) → r.HasKey arg.bytes) ∧
        ∀ n, n + 1 < (rulesWith arg rules).length → taken n = true := by
  have hkey : givenKey arg ≠ [] := by
    rw [givenKey, ne_eq, take_eq_nil_iff, not_or]
    exact ⟨by decide, harg⟩
  have hkept : keptRules (givenKey arg) 0 replies =
      (rules.filter fun r => keyMatch (givenKey arg) r.data).map KernelRule.data := by
    rw [h.keptRules, filter_map]
    rfl
  have hsent : takeThrough taken ((rulesWith arg rules).map KernelRule.data) =
      (rulesWith arg rules).map KernelRule.data ↔ ∀ n, n + 1 < (rulesWith arg rules).length →
        taken n = true := by
    rw [takeThrough_eq_self_iff, length_map]
  constructor
  · intro hsel
    have hlisted : keptRules (givenKey arg) 0 replies = _ := hsel.listed
    refine ⟨fun r hr hmentions => ?_, hsent.mp ?_⟩
    · have hmem : r.data ∈ keptRules (givenKey arg) 0 replies := by
        rw [hkept]
        exact mem_map_of_mem (mem_filter.mpr ⟨hr, (keyMatch_iff hkey).mpr hmentions⟩)
      rw [hlisted] at hmem
      -- the rule that was meant has the same texts
      obtain ⟨r', hr', hdata⟩ := mem_map.mp hmem
      have hkeys : keys r'.fields = keys r.fields := by
        rw [← r'.laidOut.keyMatch, hdata, r.laidOut.keyMatch]
      have hhas : r'.HasKey arg.bytes := of_decide_eq_true (mem_filter.mp hr').2
      rwa [KernelRule.HasKey, hkeys] at hhas
    · rw [← hlisted]
      exact hsel.deleted.trans hlisted.symm
  · rintro ⟨hall, htaken⟩
    have hsame : (rules.filter fun r => keyMatch (givenKey arg) r.data) = rulesWith arg rules := by
      refine filter_congr fun r hr => ?_
      rw [Bool.eq_iff_iff, keyMatch_iff hkey, decide_eq_true_iff]
      refine ⟨hall r hr, fun hhas => ?_⟩
      obtain ⟨text, htext, hinfix⟩ := hhas.mentions
      exact ⟨text, htext, ( take_prefix _ _).isInfix.trans hinfix⟩
    rw [hsame] at hkept
    exact ⟨(congrArg (takeThrough taken) hkept).trans (hsent.mpr htaken), hkept⟩

/-- A rule with one field, for keys. -/
def keyedData (text : Bytes) : RuleData :=
  { RuleData.zero with
    fieldCount := 1
    fields := fun _ => StrField.code .filterkey
    values := fun _ => UInt32.ofNat text.length
    buflen := UInt32.ofNat text.length
    buf := text }

theorem held_keyedData {text : Bytes} (hlen : text.length ≤ 256) (hnul : 0 ∉ text) :
    Held (keyedData text) [.str .filterkey .equal text] := by
  have hone : ∀ i f, [Field.str .filterkey .equal text][i]? = some f →
      Field.str .filterkey .equal text = f := fun i f hf => by
    rw [getElem?_singleton] at hf
    split at hf
    · exact Option.some.inj hf
    · cases hf
  refine ⟨rfl, Nat.le_add_left 1 62, fun i f hf => hone i f hf ▸ rfl,
    fun i f hf => hone i f hf ▸ rfl, ?_, ?_, ?_, ?_⟩
  · simp only [keyedData, texts_cons, texts_nil, Field.text, append_nil, UInt32.toNat_ofNat']
    omega
  · simp [keyedData, Field.text]
  · simp only [texts_cons, texts_nil, Field.text, append_nil, length_singleton, pathMax]
    omega
  · simpa [Field.text] using hnul

/-- The rule as the kernel has it. -/
def keyedRule (text : Bytes) (hlen : text.length ≤ 256) (hnul : 0 ∉ text) : KernelRule :=
  ⟨keyedData text, [.str .filterkey .equal text], (held_keyedData hlen hnul).laidOut⟩

/-- A rule with the key "logins", and one with this key and another. -/
def loginRules : List KernelRule := [keyedRule (ascii "logins") (by decide) (by decide),
  keyedRule (ascii "session" ++ 1 :: ascii "logins") (by decide) (by decide)]

/-- The kernel returns both. -/
def loginReplies : List (Option Reply) :=
  loginRules.map (fun r => some (.rule r.data)) ++ [some .done]

/-- The second request to delete a rule fails. -/
theorem selects_iff_logins : Selects ⟨ascii "logins", by decide⟩ loginRules loginReplies (· == 0) := by
  refine (selects_iff (by decide) ?_ _).mpr ⟨fun r hr _ => ?_, fun n hn => ?_⟩
  · exact .rule _ (by decide) (.rule _ (by decide) (.done _ (by decide)))
  · obtain rfl | rfl : r = _ ∨ r = _ := by simpa [loginRules] using hr
    · exact ⟨ascii "logins", by decide, by decide⟩
    · exact ⟨ascii "session" ++ 1 :: ascii "logins", by decide, by decide⟩
  · have hlen : (rulesWith ⟨ascii "logins", by decide⟩ loginRules).length = 2 := by decide +kernel
    rw [hlen] at hn
    exact beq_iff_eq.mpr (by omega)

/-- The rules with the key "logins" are taken for ones with the key "log". -/
theorem not_selects_part : ¬ Selects ⟨ascii "log", by decide⟩ loginRules loginReplies fun _ => true := by
  intro h
  have hdeleted := congrArg List.length h.deleted
  revert hdeleted
  decide +kernel

end LibAudit.Rules
