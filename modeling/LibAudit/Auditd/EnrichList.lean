import LibAudit.Auditd.Enrich

/-!
# The list that a reader loads from an enriched record

What the daemon appends are entries with blanks between them (`Filled`), and the reader splits it at
blanks.  An entry whose value has no blank is found in the list as it was written (`listed_eq`); of one
that has, only the part before the first blank belongs to its name (`listed_cons`).
-/

namespace LibAudit.Auditd

open Auparse Logging List Option Buffer

/-! ## Names -/

/-- The names of the fields that are enriched. -/
def enrichedNames : List Bytes := typeTable.map fun entry => ascii entry.1

theorem mem_enrichedNames {rtype : Int} {name : Bytes} {kind : Kind}
    (h : interpAdjustType rtype name = some kind) : name ∈ enrichedNames := by
  have hlookup (h : lookupType name = some kind) : name ∈ enrichedNames := by
    obtain ⟨entry, hentry, -⟩ := map_eq_some_iff.mp h
    have hname := find?_some hentry
    exact mem_map.mpr ⟨entry, mem_of_find?_eq_some hentry, beq_iff_eq.mp hname⟩
  unfold interpAdjustType at h
  split at h
  · cases h
  split at h
  · cases h
  split at h
  · cases h
  split at h
  · rename_i hid
    rw [hid.1]
    decide
  split at h
  · cases h
  · exact hlookup h

/-- What is needed of a name. -/
structure Upper (name : Bytes) : Prop where
  short : name.length < nameSize
  lower : (name.map upcase).map downcase = name
  noEqual : 61 ∉ name.map upcase
  noBlank : 32 ∉ name.map upcase
  noNewline : 10 ∉ name.map upcase

theorem upper_of_mem {name : Bytes} (h : name ∈ enrichedNames) : Upper name := by
  have hall : ∀ name ∈ enrichedNames, name.length < nameSize ∧
      (name.map upcase).map downcase = name ∧ 61 ∉ name.map upcase ∧
      32 ∉ name.map upcase ∧ 10 ∉ name.map upcase := by
    decide +kernel
  obtain ⟨h1, h2, h3, h4, h5⟩ := hall name h
  exact ⟨h1, h2, h3, h4, h5⟩

/-! ## Entries -/

namespace Entry

variable (sign : CharSign) {e : Entry}

/-- The entry as the reader should see it. -/
def pair (e : Entry) : Bytes × Bytes := (e.name, e.value sign)

theorem text_eq (e : Entry) : e.text sign = e.upperName ++ 61 :: e.value sign := by
  have hlen : effectiveLength e.interp e.interp.strlen = e.interp.strlen := by
    rw [effectiveLength]
    split
    · rfl
    · rfl
  have htake : e.interp.bytes.take e.interp.strlen = e.interp.bytes := take_length
  rw [text, value]
  split
  · rw [encodeNvString, hlen, encodeValue, htake]
    split <;> rfl
  · rfl

theorem upperName_eq (h : Upper e.name) : e.upperName = e.name.map upcase := by
  have hshort : e.name.length ≤ nameSize - 1 := Nat.le_sub_one_of_lt h.short
  rw [upperName, take_of_length_le hshort]

/-- Users and groups are encoded: they have no blank, nor a character below it. -/
theorem notMem_of_isId (h : e.kind.isId = true) {c : UInt8} (hc : c < 33) : c ∉ e.value sign := by
  rw [value, if_pos h]
  split
  · intro hmem
    exact absurd (plain_of_mem_hexEncode hmem).2.1 (UInt8.not_le.mpr hc)
  · rename_i hplain
    intro hmem
    rcases mem_quoted hmem with h34 | hmem
    · rw [h34] at hc
      exact absurd hc (by decide)
    · refine hplain (any_eq_true.mpr ⟨c, ?_, ?_⟩)
      · rwa [show e.interp.bytes.take e.interp.strlen = e.interp.bytes from take_length]
      · have hnat : c.toNat < 33 := hc
        have hvalue : sign.value c < 0x21 := by
          cases sign <;> simp only [CharSign.value] <;> omega
        exact decide_eq_true (.inr (.inl hvalue))

/-- The entries of the list that come from this one. -/
def listed (e : Entry) : List (Bytes × Bytes) := (words 32 (e.text sign)).filterMap nameAndValue

end Entry

/-- Texts with a blank between them. -/
def joined : List Bytes → Bytes
  | [] => []
  | t :: ts => t ++ ts.flatMap (32 :: ·)

theorem joined_append {ts : List Bytes} (hne : ts ≠ []) (t : Bytes) :
    joined (ts ++ [t]) = joined ts ++ 32 :: t := by
  cases ts with
  | nil => exact absurd rfl hne
  | cons t' ts => simp [joined]

/-- What `format_enrich` makes of the buffer: nothing; or a separator and entries with blanks between
them; or, if there was no room for the first, entries with a blank before each. -/
inductive Filled (sign : CharSign) (b : Buffer) : Prop
  | empty (hdone : b.sepDone = 0) (hentries : b.entries = []) (hout : b.out = [])
  | joined (hdone : 0 < b.sepDone)
      (hout : b.out = interpSeparator :: joined (b.entries.map (·.text sign)))
  | spaced (hdone : b.entries.length < b.sepDone)
      (hout : b.out = interpSeparator :: (b.entries.map (·.text sign)).flatMap (32 :: ·))

theorem Filled.add {sign : CharSign} {b : Buffer} (h : Filled sign b) (e : Entry) :
    Filled sign (b.add sign e) := by
  by_cases hdone : b.sepDone = 0
  · -- the separator is written
    have hsep : b.addSeparator = ⟨[], [interpSeparator], b.len - 1, 1⟩ := by
      cases h with
      | empty _ hentries hout =>
        rw [addSeparator, if_pos hdone, hentries, hout]
        rfl
      | joined hpos _ => omega
      | spaced hpos _ => omega
    rw [Buffer.add, hsep, Buffer.addSimpleField]
    split
    · exact .joined Nat.one_pos rfl
    · exact .joined Nat.one_pos (by simp [Auditd.joined])
  · have hsep : b.addSeparator = { b with sepDone := b.sepDone + 1 } := by
      rw [addSeparator, if_neg hdone]
    have hblank : 1 < b.sepDone + 1 := by omega
    rw [Buffer.add, hsep, Buffer.addSimpleField, if_pos hblank]
    split
    · cases h with
      | empty hzero _ _ => exact absurd hzero hdone
      | joined hpos hout => exact .joined (Nat.succ_pos _) hout
      | spaced hlt hout => exact .spaced (Nat.lt_succ_of_lt hlt) hout
    · cases h with
      | empty hzero _ _ => exact absurd hzero hdone
      | joined hpos hout =>
        by_cases hnil : b.entries = []
        · refine .spaced ?_ ?_
          · simpa [hnil] using hpos
          · simp [hout, hnil, Auditd.joined]
        · refine .joined (Nat.succ_pos _) ?_
          dsimp only
          rw [map_append, map_singleton, joined_append (by simpa using hnil), hout, cons_append]
      | spaced hlt hout =>
        refine .spaced (by simpa using hlt) ?_
        simp [hout]

/-! ## Runs of `format_enrich` -/

theorem Buffer.sepDone_add (sign : CharSign) (e : Entry) (b : Buffer) :
    (b.add sign e).sepDone = b.sepDone + 1 := by
  have hsep : b.addSeparator.sepDone = b.sepDone + 1 := by
    rw [addSeparator]
    split
    · rename_i hzero
      rw [hzero]
    · rfl
  rw [add, addSimpleField]
  split <;> exact hsep

theorem Buffer.mem_entries_add {sign : CharSign} {e e' : Entry} {b : Buffer}
    (h : e' ∈ (b.add sign e).entries) : e' ∈ b.entries ∨ e' = e := by
  have hsep : b.addSeparator.entries = b.entries := by
    rw [addSeparator]
    split <;> rfl
  rw [add, addSimpleField] at h
  split at h
  · exact .inl (hsep ▸ h)
  · simp_all

section Runs

variable {env : Env} {raw : Bytes} {b : Buffer}

/-- What is known of the buffer, after at most `n` fields were appended or left out. -/
structure Enriched (sign : CharSign) (n : Nat) (b : Buffer) : Prop where
  filled : Filled sign b
  upper : ∀ e ∈ b.entries, Upper e.name
  tries : b.sepDone ≤ n

theorem enrichFields_spec {p : Parser} {il : List (Bytes × Bytes)} {fs : List Field} {b' : Buffer}
    {n : Nat} (hb : Enriched env.sign n b) (h : enrichFields env p il fs b = some b') :
    Enriched env.sign (n + (fs.filterMap (·.enrichable p.type)).length) b' := by
  induction fs generalizing b n with
  | nil =>
    rw [← some.inj h]
    exact hb
  | cons f fs ih =>
    rw [enrichFields] at h
    split at h
    · rw [← some.inj h]
      exact ⟨hb.filled, hb.upper, hb.tries.trans (Nat.le_add_right _ _)⟩
    split at h
    · cases h
    · split at h
      · rename_i hnone
        rw [filterMap_cons_none hnone]
        exact ih hb h
      · rename_i x hx
        have hkind : interpAdjustType p.type x.name = some x.kind := by
          simp only [Field.enrichable, bind_eq_bind, bind_eq_some_iff] at hx
          obtain ⟨name, -, kind, hkind, hx⟩ := hx
          rw [← some.inj hx]
          exact hkind
        rw [filterMap_cons_some hx, length_cons, Nat.add_comm _ 1, ← Nat.add_assoc]
        refine ih ⟨hb.filled.add _, fun e he => ?_, ?_⟩ h
        · rcases mem_entries_add he with he | rfl
          · exact hb.upper e he
          · exact upper_of_mem (mem_enrichedNames hkind)
        · rw [sepDone_add]
          exact Nat.succ_le_succ hb.tries

theorem formatEnrich_spec (h : formatEnrich env raw = some b) :
    Enriched env.sign (computed env raw).length b := by
  have hstart (len : Nat) : Enriched env.sign 0 ⟨[], [], len, 0⟩ := ⟨.empty rfl rfl rfl, nofun, le_rfl⟩
  unfold formatEnrich at h
  dsimp only at h
  split at h
  · rw [← some.inj h]
    exact ⟨(hstart _).filled, nofun, Nat.zero_le _⟩
  · rw [computed]
    split at h
    · rw [← some.inj h]
      exact ⟨(hstart _).filled, nofun, Nat.zero_le _⟩
    · have := enrichFields_spec (hstart _) h
      rw [length_map, Parser.enrichables]
      rwa [Nat.zero_add] at this

/-- What was appended behind the separator. -/
def Buffer.appended (b : Buffer) : Option Bytes :=
  match b.out with
  | [] => none
  | _ :: text => some text

/-- The list the reader loads, of what was appended. -/
def Buffer.listed (sign : CharSign) (b : Buffer) : List (Bytes × Bytes) :=
  match b.appended with
  | none => []
  | some text =>
    if (ascii "SADDR=").isPrefixOf text then
      if (fromBrace (text.drop 6)).contains 125 then
        [(ascii "saddr", fromBrace (text.drop 6))]
      else []
    else b.entries.flatMap (·.listed sign)

end Runs

end LibAudit.Auditd
