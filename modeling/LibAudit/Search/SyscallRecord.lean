import LibAudit.Search.Parse

/-!
# SYSCALL records as the kernel writes them

The kernel writes the fields of a SYSCALL record in a fixed order.  Most of them are numbers and words
of its own, and these have no equal sign in them (`Clean`).  The name of the command, the path of the
program and the key of the rule can be chosen by users, and the kernel writes them between quotes if all
their bytes are printable and neither blanks nor quotes, and in hexadecimal digits otherwise.

A cursor in the record is described by what a search from there finds (`Points`).  All the kernel's own
fields are found where they are, whatever the options (`reaches_parseIds`), so that what remains is the
end of the record (`Ahead`).
-/

namespace LibAudit.Search

open Find Auparse Scan List

/-! ## Records -/

/-- The fields that the kernel and the daemon write by themselves, in their order. -/
inductive Name
  | node | type | msg | arch | syscall | per | success | exit | a0 | a1 | a2 | a3 | items | ppid | pid
  | auid | uid | gid | euid | suid | fsuid | egid | sgid | fsgid | tty | ses
  deriving DecidableEq

namespace Name

/-- The order of the fields. -/
def all : List Name :=
  [node, type, msg, arch, syscall, per, success, exit, a0, a1, a2, a3, items, ppid, pid, auid, uid, gid,
    euid, suid, fsuid, egid, sgid, fsgid, tty, ses]

def text : Name → Bytes
  | node => ascii "node" | type => ascii "type" | msg => ascii "msg" | arch => ascii "arch"
  | syscall => ascii "syscall" | per => ascii "per" | success => ascii "success"
  | exit => ascii "exit" | a0 => ascii "a0" | a1 => ascii "a1" | a2 => ascii "a2" | a3 => ascii "a3"
  | items => ascii "items" | ppid => ascii "ppid" | pid => ascii "pid" | auid => ascii "auid"
  | uid => ascii "uid" | gid => ascii "gid" | euid => ascii "euid" | suid => ascii "suid"
  | fsuid => ascii "fsuid" | egid => ascii "egid" | sgid => ascii "sgid" | fsgid => ascii "fsgid"
  | tty => ascii "tty" | ses => ascii "ses"

/-- A value that is meant as a number is one that can be represented. -/
def Converts : Name → Bytes → Prop
  | arch, v | a0, v | a1, v => (strtoulIn 16 v).isSome
  | exit, v => (strtoll 0 v).isSome
  | syscall, v | ppid, v | pid, v | auid, v | uid, v | gid, v | euid, v | egid, v | ses, v =>
    (strtoulIn 10 v).isSome
  | _, _ => True

end Name

/-- A value of the kernel's own: no blank, quote or equal sign. -/
def Clean (v : Bytes) : Prop := ∀ b ∈ v, b ≠ 0 ∧ b ≠ blank ∧ b ≠ 34 ∧ b ≠ equals

instance (v : Bytes) : Decidable (Clean v) := inferInstanceAs (Decidable (∀ b ∈ v, _))

/-- A SYSCALL record. -/
structure SyscallRecord where
  /-- The daemon writes the name of the machine. -/
  hasNode : Bool
  /-- The process has a personality of its own. -/
  hasPer : Bool
  /-- The system call has returned: there is a result. -/
  returned : Bool
  value : Name → Bytes
  clean : ∀ n : Name, Clean (value n)
  converts : ∀ n : Name, n.Converts (value n)
  comm : CString
  /-- There may be no program. -/
  exe : Option CString
  /-- There may be no security module. -/
  subj : Option { label : Bytes // Clean label }
  /-- The rule may have no key. -/
  key : Option CString

/-- `audit_log_untrustedstring`, and what is written if there is no value. -/
def written : Option CString → Bytes
  | none => ascii "(null)"
  | some v => escape v.bytes

/-- What a value stands for. -/
def decoded : Option CString → Bytes
  | none => ascii "(null)"
  | some v => v.bytes

/-- It is between quotes. -/
def quoted (v : Option CString) : Bool := (written v).head? == some 34

/-- The keys in the value of a key field. -/
def keysOf (v : Option CString) : List Bytes :=
  if decoded v = [] then [[]] else words 1 (decoded v)

namespace SyscallRecord

variable (r : SyscallRecord)

/-- The record has the field. -/
def has : Name → Bool
  | .node => r.hasNode
  | .per => r.hasPer
  | .success | .exit => r.returned
  | _ => true

/-- The label, if there is one, and the key. -/
def afterExe : List (Bytes × Bytes) :=
  (r.subj.toList.map fun label => (ascii "subj", label.1)) ++ [(ascii "key", written r.key)]

/-- What is behind the command. -/
def afterComm : List (Bytes × Bytes) := (ascii "exe", written r.exe) :: r.afterExe

/-- The end of the record. -/
def tail : List (Bytes × Bytes) := (ascii "comm", written (some r.comm)) :: r.afterComm

/-- The fields of these names, and the end of the record. -/
def fields (names : List Name) : List (Bytes × Bytes) :=
  ((names.filter r.has).map fun n => (n.text, r.value n)) ++ r.tail

/-- The record as a line of text. -/
def message : Bytes := (line (r.fields Name.all)).drop 1

end SyscallRecord

/-! ## Values -/

section Values

variable {v : Option CString}

/-- A value between quotes. -/
structure Quotes (v : Option CString) : Prop where
  text : written v = 34 :: (decoded v ++ [34])
  plain : ∀ b ∈ decoded v, b ≠ 34 ∧ 33 ≤ b

/-- A value in digits, or none at all. -/
structure Encodes (v : Option CString) : Prop where
  text : ∀ b ∈ written v, b ≠ 34 ∧ b ≠ blank ∧ b ≠ equals
  ne_nil : written v ≠ []
  decoded_ne_nil : decoded v ≠ []
  length_le : (decoded v).length ≤ (written v).length
  reads : ∀ fs, unescape (written v ++ line fs) = some (decoded v)

theorem hexDigit_plain : ∀ n < 16, hexDigit n ≠ 34 ∧ hexDigit n ≠ blank ∧ hexDigit n ≠ equals := by
  decide

theorem hexEncode_ne_nil {bs : Bytes} (h : bs ≠ []) : hexEncode bs ≠ [] := by
  have := length_hexEncode bs
  have := length_pos_of_ne_nil h
  exact ne_nil_of_length_pos (by omega)

theorem encodes_hex {v : CString} (hne : v.bytes ≠ []) (heq : escape v.bytes = hexEncode v.bytes) :
    Encodes (some v) := by
  refine ⟨fun b hb => ?_, ?_, hne, ?_, fun fs => ?_⟩
  · rw [written, heq] at hb
    obtain ⟨n, hn, rfl⟩ := exists_of_mem_hexEncode hb
    exact hexDigit_plain n hn
  · rw [written, heq]
    exact hexEncode_ne_nil hne
  · rw [written, decoded, heq, length_hexEncode]
    omega
  · rw [written, heq]
    refine auUnescape_hexEncode_append hne v.nulFree fun c hc => ?_
    cases fs with
    | nil => cases hc
    | cons f fs =>
      rw [line_cons, head?_cons, Option.some_inj] at hc
      rw [← hc]
      decide

theorem quotes_or_encodes (v : Option CString) : Quotes v ∨ Encodes v := by
  cases v with
  | none => exact .inr ⟨by decide +kernel, by decide, by decide, by decide, fun _ => rfl⟩
  | some v =>
    cases hany : v.bytes.any fun b => b == 34 || decide (b < 33) || decide (126 < b) with
    | true =>
      obtain ⟨b, hb, -⟩ := any_eq_true.mp hany
      exact .inr (encodes_hex (ne_nil_of_mem hb) (by rw [escape, if_pos hany]))
    | false =>
      refine .inl ⟨by rw [written, escape, hany]; rfl, fun b hb => ?_⟩
      have hb' := any_eq_false.mp hany b hb
      simp_all

theorem Encodes.not_quoted (h : Encodes v) : quoted v = false := by
  rw [quoted, beq_eq_false_iff_ne]
  intro hhead
  exact (h.text 34 (mem_of_mem_head? hhead)).1 rfl

theorem Quotes.quoted (h : Quotes v) : quoted v = true := by
  rw [Search.quoted, h.text]
  rfl

theorem quotes (h : quoted v = true) : Quotes v := by
  rcases quotes_or_encodes v with hq | he
  · exact hq
  · rw [he.not_quoted] at h
    cases h

theorem encodes (h : quoted v = false) : Encodes v := by
  rcases quotes_or_encodes v with hq | he
  · rw [hq.quoted] at h
    cases h
  · exact he

theorem Quotes.quote_notMem (h : Quotes v) : 34 ∉ decoded v := fun hmem => (h.plain 34 hmem).1 rfl

theorem Quotes.blank_notMem (h : Quotes v) : blank ∉ decoded v :=
  fun hmem => absurd (h.plain blank hmem).2 (by decide)

theorem blank_notMem_written (v : Option CString) : blank ∉ written v := by
  rcases quotes_or_encodes v with hq | he
  · rw [hq.text]
    intro h
    rw [mem_cons, mem_append, mem_singleton] at h
    rcases h with h | h | h
    · exact absurd h (by decide)
    · exact hq.blank_notMem h
    · exact absurd h (by decide)
  · exact fun h => (he.text blank h).2.1 rfl

theorem Encodes.equals_notMem (h : Encodes v) : equals ∉ written v := fun hmem => (h.text _ hmem).2.2 rfl

end Values

/-! ## Cursors -/

section Cursors

variable {r : SyscallRecord} {ok : UInt8 → Bool} {stem s : Bytes}

/-- A name that the functions look for. -/
structure Sought (stem : Bytes) : Prop extends Stem stem where
  quote : 34 ∉ stem
  first : stem ≠ Name.text .node ∧ stem ≠ Name.text .type

instance : Decidable (Sought stem) :=
  decidable_of_iff ((equals ∉ stem ∧ blank ∉ stem) ∧ 34 ∉ stem ∧
      stem ≠ Name.text .node ∧ stem ≠ Name.text .type)
    ⟨fun h => ⟨⟨h.1.1, h.1.2⟩, h.2.1, h.2.2⟩, fun h => ⟨⟨h.1.1, h.1.2⟩, h.2, h.3⟩⟩

/-- A search from `s` is a search in the fields `fs`. -/
def Points (s : Bytes) (fs : List (Bytes × Bytes)) : Prop :=
  ∀ (ok : UInt8 → Bool) {stem : Bytes}, Sought stem →
    behindIf ok (stem ++ [equals]) 0 s = (findIn ok stem fs).map textFrom

theorem points_line {fs : List (Bytes × Bytes)} (hfs : ∀ f ∈ fs, Field f) : Points (line fs) fs :=
  fun _ _ hstem => behindIf_line hstem.toStem hfs 0

theorem points_quote {fs : List (Bytes × Bytes)} (hfs : ∀ f ∈ fs, Field f) :
    Points (34 :: line fs) fs := by
  intro ok stem hstem
  have hquote : 34 ∉ stem ++ [equals] := by
    rw [mem_append, mem_singleton]
    exact not_or.mpr ⟨hstem.quote, by decide⟩
  rw [behindIf_cons (by simp) hquote, behindIf_line hstem.toStem hfs]

theorem Clean.field {v : Bytes} (h : Clean v) {name : Bytes} (hname : equals ∉ name) : Field (name, v) :=
  ⟨hname, fun hmem => (h blank hmem).2.1 rfl⟩

theorem Clean.equals_notMem {v : Bytes} (h : Clean v) : equals ∉ v := fun hmem => (h _ hmem).2.2.2 rfl

theorem field_written {name : Bytes} (hname : equals ∉ name) (v : Option CString) :
    Field (name, written v) :=
  ⟨hname, blank_notMem_written v⟩

theorem Name.equals_notMem_text (n : Name) : equals ∉ n.text := by
  cases n <;> decide

namespace SyscallRecord

variable (r)

theorem field_afterExe : ∀ f ∈ r.afterExe, Field f := by
  intro f hf
  rw [afterExe, mem_append, mem_singleton, mem_map] at hf
  rcases hf with ⟨label, -, rfl⟩ | rfl
  · exact label.2.field (by decide)
  · exact field_written (by decide) _

theorem field_afterComm : ∀ f ∈ r.afterComm, Field f := by
  intro f hf
  rcases mem_cons.mp hf with rfl | hf
  · exact field_written (by decide) _
  · exact r.field_afterExe f hf

theorem field_tail : ∀ f ∈ r.tail, Field f := by
  intro f hf
  rcases mem_cons.mp hf with rfl | hf
  · exact field_written (by decide) _
  · exact r.field_afterComm f hf

theorem field_fields (names : List Name) : ∀ f ∈ r.fields names, Field f := by
  intro f hf
  rw [fields, mem_append, mem_map] at hf
  rcases hf with ⟨n, -, rfl⟩ | hf
  · exact (r.clean n).field n.equals_notMem_text
  · exact r.field_tail f hf

theorem fields_ne_nil (names : List Name) : r.fields names ≠ [] :=
  append_ne_nil_of_right_ne_nil _ (cons_ne_nil _ _)

theorem fields_cons (n : Name) (names : List Name) : r.fields (n :: names) =
      if r.has n then (n.text, r.value n) :: r.fields names else r.fields names := by
  rw [fields, filter_cons]
  split
  · rfl
  · rfl

/-- Fields with other names are passed over. -/
theorem findIn_fields {q : List Name}
    (hq : ∀ m ∈ q, r.has m = true → endsWith ok stem blank m.text = false) (names : List Name) :
    findIn ok stem (r.fields (q ++ names)) = findIn ok stem (r.fields names) := by
  rw [fields, filter_append, map_append, append_assoc]
  refine findIn_append _ fun f hf => ?_
  obtain ⟨m, hm, rfl⟩ := mem_map.mp hf
  obtain ⟨hm, hhas⟩ := mem_filter.mp hm
  exact ⟨hq m hm hhas, (r.clean m).equals_notMem⟩

theorem points_message : Points r.message (r.fields Name.all) := by
  intro ok stem hstem
  have hstart : ∀ (n : Name) (fs : List (Bytes × Bytes)), n.text ≠ [] → stem ≠ n.text →
      (∀ g ∈ (n.text, r.value n) :: fs, Field g) →
      behindIf ok (stem ++ [equals]) 0 ((line ((n.text, r.value n) :: fs)).drop 1) =
        (findIn ok stem ((n.text, r.value n) :: fs)).map textFrom := by
    intro n fs hne hneq hfs
    have hprev : endsWith ok stem 0 n.text = endsWith ok stem blank n.text := by
      obtain ⟨c, name, hname⟩ := exists_cons_of_ne_nil hne
      rw [hname] at hneq ⊢
      rw [endsWith, endsWith, beq_eq_false_iff_ne.mpr hneq]
      rfl
    have hfield := hfs _ mem_cons_self
    have hline : behindIf ok _ _ _ = _ := behindIf_line hstem.toStem hfs 0
    rw [line_cons, behindIf_cons (by simp) hstem.blank_notMem, behindIf_field hstem.toStem hfield,
      ← hprev] at hline
    rw [line_cons, drop_succ_cons, drop_zero, behindIf_field hstem.toStem hfield, hline]
  have hall := r.field_fields Name.all
  rw [message]
  rw [Name.all, fields_cons] at hall ⊢
  split at hall
  · rename_i hhas
    rw [if_pos hhas]
    exact hstart .node _ (by decide) hstem.first.1 hall
  · rename_i hhas
    rw [if_neg hhas]
    have hhas' : r.has .type = true := rfl
    rw [fields_cons, if_pos hhas'] at hall ⊢
    exact hstart .type _ (by decide) hstem.first.2 hall

end SyscallRecord

/-- The fields from the `k`th on are still ahead. -/
def At (r : SyscallRecord) (k : Nat) (s : Bytes) : Prop :=
  ∃ q, (∀ m ∈ q, m ∈ Name.all.take k) ∧ Points s (r.fields (q ++ Name.all.drop k))

theorem at_message (r : SyscallRecord) : At r 0 r.message := ⟨[], nofun, r.points_message⟩

theorem at_line (r : SyscallRecord) (k : Nat) : At r k (line (r.fields (Name.all.drop k))) :=
  ⟨[], nofun, points_line (r.field_fields _)⟩

theorem At.mono {k k' : Nat} (h : At r k s) (hle : k ≤ k') : At r k' s := by
  obtain ⟨q, hq, hs⟩ := h
  have hsplit : Name.all.drop k = (Name.all.take k').drop k ++ Name.all.drop k' := by
    conv_lhs => rw [← take_append_drop k' Name.all]
    rcases Nat.lt_or_ge k' Name.all.length with hlt | hge
    · rw [drop_append_of_le_length (by rw [length_take]; omega)]
    · rw [take_of_length_le hge, drop_eq_nil_of_le hge, append_nil, append_nil]
  refine ⟨q ++ (Name.all.take k').drop k, fun m hm => ?_, ?_⟩
  · rcases mem_append.mp hm with hm | hm
    · exact take_subset_take_left Name.all hle (hq m hm)
    · exact mem_of_mem_drop hm
  · rwa [append_assoc, ← hsplit]

/-- The `k`th field is the first that a search ends in. -/
structure Finds (ok : UInt8 → Bool) (k : Nat) (n : Name) : Prop where
  sought : Sought n.text
  next : Name.all.drop k = n :: Name.all.drop (k + 1)
  first : ∀ m ∈ Name.all.take k, endsWith ok n.text blank m.text = false
  self : endsWith ok n.text blank n.text = true

/-- The next field is found. -/
theorem At.find {k : Nat} (h : At r k s) {n : Name} (hn : Finds ok k n) (hhas : r.has n = true) :
    behindIf ok (n.text ++ [equals]) 0 s =
      some (r.value n ++ line (r.fields (Name.all.drop (k + 1)))) := by
  obtain ⟨q, hq, hs⟩ := h
  rw [hs ok hn.sought, r.findIn_fields fun m hm _ => hn.first m (hq m hm), hn.next, r.fields_cons,
    if_pos hhas, findIn_cons_self hn.self]
  rfl

/-- What is not one of the kernel's own fields is looked for at the end of the record. -/
theorem At.pass {k : Nat} (h : At r k s) (hstem : Sought stem)
    (hno : ∀ m ∈ Name.all, r.has m = true → endsWith ok stem blank m.text = false) :
    behindIf ok (stem ++ [equals]) 0 s = (findIn ok stem r.tail).map textFrom := by
  obtain ⟨q, hq, hs⟩ := h
  have hmem : ∀ m ∈ q ++ Name.all.drop k, m ∈ Name.all := by grind
  have hpass := r.findIn_fields (fun m hm => hno m (hmem m hm)) []
  rw [append_nil] at hpass
  rw [hs ok hstem, hpass]
  rfl

end Cursors

/-! ## The kernel's own fields -/

section Ids

variable {r : SyscallRecord} {s : SearchItems} {st : Scan}

/-- The untrusted values and the subject are the same. -/
structure Same (s s' : SearchItems) : Prop where
  comm : s'.comm = s.comm
  exe : s'.exe = s.exe
  avc : s'.avc = s.avc
  key : s'.key = s.key

/-- The step succeeds, with the fields from the `k`th on ahead and nothing untrusted extracted. -/
def Reaches (r : SyscallRecord) (s : SearchItems) (k : Nat) (e : Except Nat Scan) : Prop :=
  ∃ st, e = .ok st ∧ At r k st.term ∧ Same s st.items

theorem Reaches.bind {k k' : Nat} {e : Except Nat Scan} {f : Scan → Except Nat Scan}
    (h : Reaches r s k e) (hf : ∀ {st}, At r k st.term → Same s st.items → Reaches r s k' (f st)) :
    Reaches r s k' (e >>= f) := by
  obtain ⟨st, rfl, hat, hsame⟩ := h
  exact hf hat hsame

theorem cut_line {x : Bytes} (hx : blank ∉ x) {fs : List (Bytes × Bytes)} (hfs : fs ≠ []) :
    cut blank (x ++ line fs) = some (x, line fs) := by
  obtain ⟨f, fs, rfl⟩ := exists_cons_of_ne_nil hfs
  rw [line_cons, cut, if_pos (by simp), takeWhile_append_cons hx, dropWhile_append_cons hx]

theorem cut_last {x : Bytes} (hx : blank ∉ x) : cut blank (x ++ line []) = none := by
  rw [line_nil, append_nil, cut, if_neg hx]

/-- A value of the kernel's own is read. -/
theorem reaches_number {α : Type} {read : Bytes → Option α} {put : Scan → α → Scan} {n : Name}
    {noBlank range k : Nat} (hread : (read (r.value n)).isSome = true) (hsame : Same s st.items)
    (hput : ∀ st a, Same st.items (put st a).items) :
    Reaches r s k (number read noBlank range put st
      (r.value n ++ line (r.fields (Name.all.drop k)))) := by
  have hclean : blank ∉ r.value n := fun hmem => (r.clean n blank hmem).2.1 rfl
  obtain ⟨a, ha⟩ := Option.isSome_iff_exists.mp hread
  refine ⟨_, by rw [number, cut_line hclean (r.fields_ne_nil _)]; simp only [ha]; rfl, at_line r k, ?_⟩
  obtain ⟨h₁, h₂, h₃, h₄⟩ := hput st a
  exact ⟨h₁.trans hsame.comm, h₂.trans hsame.exe, h₃.trans hsame.avc, h₄.trans hsame.key⟩

/-- A step that is not made changes nothing. -/
theorem reaches_when {k : Nat} {step : Scan → Except Nat Scan} (active : Bool)
    (h : At r k st.term) (hsame : Same s st.items) (hstep : Reaches r s (k + 1) (step st)) :
    Reaches r s (k + 1) (when active step st) := by
  cases active with
  | false => exact ⟨st, rfl, h.mono (Nat.le_succ k), hsame⟩
  | true => exact hstep

section Steps

variable {α : Type} {read : Bytes → Option α} {put : Scan → α → Scan} {noBlank range : Nat}
  {name : String} {active : Bool} (k : Nat) (n : Name) (h : At r k st.term) (hsame : Same s st.items)
  (hread : (read (r.value n)).isSome = true) (hname : ascii name = n.text ++ [equals])
  (hhas : r.has n = true) (hn : Finds (fun _ => true) k n)
  (hput : ∀ st a, Same st.items (put st a).items)

include h hsame hread hname hhas hn hput

theorem reaches_required {missing : Nat} :
    Reaches r s (k + 1) (required name missing (number read noBlank range put) st) := by
  rw [required, hname, behind, h.find hn hhas]
  exact reaches_number hread hsame hput

theorem reaches_optional :
    Reaches r s (k + 1) (when active (optional name (number read noBlank range put)) st) := by
  refine reaches_when _ h hsame ?_
  rw [Scan.optional, hname, behind, h.find hn hhas]
  exact reaches_number hread hsame hput

end Steps

variable (opts : Options) (interp : Bool) (lookupUid : Bytes → UInt32 → Option Bytes)
  (hsame : Same s st.items)

include hsame

/-- The name is looked for with a blank before it. -/
theorem reaches_getPid (h : At r 14 st.term) : Reaches r s 15 (getPid opts st) := by
  refine reaches_when _ h hsame ?_
  have hname : ascii " pid=" = blank :: (ascii "pid" ++ [equals]) := rfl
  have hfind : behindIf (· == blank) (ascii "pid" ++ [equals]) 0 st.term = _ :=
    h.find (n := .pid) ⟨by decide, rfl, by decide, by decide⟩ rfl
  rw [required, hname, behind_blank (by simp), hfind]
  exact reaches_number (r.converts .pid) hsame fun _ _ => ⟨rfl, rfl, rfl, rfl⟩

theorem reaches_getLoginuid (h : At r 15 st.term) : Reaches r s 16 (getLoginuid opts lookupUid st) := by
  refine reaches_when _ h hsame ?_
  have hfind : behind (ascii "auid=") st.term = _ :=
    h.find (n := .auid) ⟨by decide, rfl, by decide, by decide⟩ rfl
  simp only [hfind]
  exact reaches_number (r.converts .auid) hsame fun _ _ => ⟨rfl, rfl, rfl, rfl⟩

/-- `auid` is not taken for `uid`. -/
theorem reaches_getUid (h : At r 16 st.term) : Reaches r s 17 (getUid opts lookupUid st) := by
  refine reaches_when _ h hsame ?_
  have hfind : behindIf (· != 97) (ascii "uid=") 0 st.term = _ :=
    h.find (n := .uid) ⟨by decide, rfl, by decide, by decide⟩ rfl
  simp only [hfind]
  exact reaches_number (r.converts .uid) hsame fun _ _ => ⟨rfl, rfl, rfl, rfl⟩

/-- **The kernel's own fields are found where they are.** -/
theorem reaches_parseIds (h : At r 0 st.term) : Reaches r s 26 (parseIds opts lookupUid st) := by
  refine (reaches_optional 13 .ppid (h.mono (by omega)) hsame (r.converts .ppid) (by rfl) rfl
    ⟨by decide, rfl, by decide, by decide⟩ fun _ _ => by exact ⟨rfl, rfl, rfl, rfl⟩).bind fun h hsame => ?_
  refine (reaches_getPid opts hsame h).bind fun h hsame => ?_
  refine (reaches_getLoginuid opts lookupUid hsame h).bind fun h hsame => ?_
  refine (reaches_getUid opts lookupUid hsame h).bind fun h hsame => ?_
  refine (reaches_when _ h hsame (reaches_required 17 .gid h hsame (r.converts .gid) (by rfl) rfl
    ⟨by decide, rfl, by decide, by decide⟩ fun _ _ => by exact ⟨rfl, rfl, rfl, rfl⟩)).bind
    fun h hsame => ?_
  refine (reaches_when _ h hsame (reaches_required 18 .euid h hsame (r.converts .euid) (by rfl) rfl
    ⟨by decide, rfl, by decide, by decide⟩ fun _ _ => by exact ⟨rfl, rfl, rfl, rfl⟩)).bind
    fun h hsame => ?_
  have h := h.mono (show 19 ≤ 21 by omega)
  refine (reaches_when _ h hsame (reaches_required 21 .egid h hsame (r.converts .egid) (by rfl) rfl
    ⟨by decide, rfl, by decide, by decide⟩ fun _ _ => by exact ⟨rfl, rfl, rfl, rfl⟩)).bind
    fun h hsame => ?_
  refine (reaches_optional 24 .tty (h.mono (by omega)) hsame rfl (by rfl) rfl
    ⟨by decide, rfl, by decide, by decide⟩ fun _ _ => by exact ⟨rfl, rfl, rfl, rfl⟩).bind fun h hsame => ?_
  exact reaches_optional 25 .ses h hsame (r.converts .ses) (by rfl) rfl
    ⟨by decide, rfl, by decide, by decide⟩ fun _ _ => by exact ⟨rfl, rfl, rfl, rfl⟩

theorem reaches_getArch (h : At r 3 st.term) : Reaches r s 4 (getArch opts interp st) :=
  reaches_when _ h hsame (reaches_required 3 .arch h hsame (r.converts .arch) (by rfl) rfl
    ⟨by decide, rfl, by decide, by decide⟩ fun _ _ => by exact ⟨rfl, rfl, rfl, rfl⟩)

theorem reaches_getSyscall (h : At r 4 st.term) : Reaches r s 5 (getSyscall st) :=
  reaches_required 4 .syscall h hsame (r.converts .syscall) (by rfl) rfl
    ⟨by decide, rfl, by decide, by decide⟩ fun _ _ => by exact ⟨rfl, rfl, rfl, rfl⟩

theorem reaches_getSuccess (hret : r.returned = true) (h : At r 6 st.term) :
    Reaches r s 7 (getSuccess opts st) :=
  reaches_optional 6 .success h hsame rfl (by rfl) hret
    ⟨by decide, rfl, by decide, by decide⟩ fun _ _ => by exact ⟨rfl, rfl, rfl, rfl⟩

theorem reaches_getExit (hret : r.returned = true) (h : At r 7 st.term) :
    Reaches r s 8 (getExit opts st) :=
  reaches_when _ h hsame (reaches_required 7 .exit h hsame (r.converts .exit) (by rfl) hret
    ⟨by decide, rfl, by decide, by decide⟩ fun _ _ => by exact ⟨rfl, rfl, rfl, rfl⟩)

theorem reaches_getA0 (h : At r 8 st.term) : Reaches r s 9 (getA0 st) :=
  reaches_required 8 .a0 h hsame (r.converts .a0) (by rfl) rfl
    ⟨by decide, rfl, by decide, by decide⟩ fun _ _ => by exact ⟨rfl, rfl, rfl, rfl⟩

theorem reaches_getA1 (h : At r 9 st.term) : Reaches r s 10 (getA1 st) :=
  reaches_required 9 .a1 h hsame (r.converts .a1) (by rfl) rfl
    ⟨by decide, rfl, by decide, by decide⟩ fun _ _ => by exact ⟨rfl, rfl, rfl, rfl⟩

end Ids

end LibAudit.Search
