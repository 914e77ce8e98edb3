import LibAudit.Search.SyscallRecord

/-!
# Names hidden in untrusted values

The end of a SYSCALL record has values that users can choose.  What a search finds there is a matter of
which of them it has in front of it: the first one that has the name in it, between quotes, hides the
field (`findIn_front_some`, `findIn_front_none`).  This module says for each of the last steps of
`parse_task_info` and `parse_syscall` when it finds the right value, and what it does otherwise.
-/

namespace LibAudit.Search

open Find Scan SyscallRecord Option

/-! ## Where a name is found at the end of a record -/

section Ahead

variable {r : SyscallRecord} {s stem : Bytes} {name : String} {v : Option CString}

/-- What is behind a name in the text of an untrusted value, up to the closing quote. -/
def hidden (name : String) (v : Option CString) : Option Bytes := behind (ascii name) (written v)

/-- A name that is none of the kernel's own. -/
structure Foreign (stem : Bytes) : Prop extends Sought stem where
  other : ∀ m ∈ Name.all, endsWith (fun _ => true) stem Find.blank m.text = false

/-- For other names than the kernel's own, a search from `s` is a search in these fields. -/
def Ahead (s : Bytes) (fs : List (Bytes × Bytes)) : Prop :=
  ∀ stem, Foreign stem →
    behind (stem ++ [equals]) s = (findIn (fun _ => true) stem fs).map textFrom

theorem Points.ahead {fs : List (Bytes × Bytes)} (h : Points s fs) : Ahead s fs :=
  fun _ hstem => h _ hstem.toSought

theorem At.ahead {k : Nat} (h : At r k s) : Ahead s r.tail :=
  fun _ hstem => h.pass hstem.toSought fun m hm _ => hstem.other m hm

/-- A field with another name is searched for what is hidden in it. -/
theorem findIn_cons_of_ne {f : Bytes × Bytes} (hno : endsWith (fun _ => true) stem blank f.1 = false)
    (fs : List (Bytes × Bytes)) :
    findIn (fun _ => true) stem (f :: fs) =
      match behind (stem ++ [equals]) f.2 with
      | some x => some (x, fs)
      | none => findIn (fun _ => true) stem fs := by
  have heq : behindIf _ (stem ++ [equals]) equals f.2 = behind (stem ++ [equals]) f.2 :=
    behindIf_true equals 0 f.2
  cases hb : behind (stem ++ [equals]) f.2 with
  | some x => simp only [findIn, hno, heq, hb, Bool.false_eq_true, if_false]
  | none => simp only [findIn, hno, heq, hb, Bool.false_eq_true, if_false]

theorem hidden_of_not_quoted (hname : equals ∈ ascii name) (h : quoted v = false) :
    hidden name v = none :=
  behindIf_eq_none hname (encodes h).equals_notMem 0

theorem behind_suffix {p s x : Bytes} (h : behind p s = some x) : ∃ a, s = a ++ x := by
  have hgen : ∀ (s : Bytes) (prev : UInt8), behindIf (fun _ => true) p prev s = some x →
      ∃ a, s = a ++ x := by
    intro s
    induction s with
    | nil => exact fun _ h => nomatch h
    | cons c s ih =>
      intro prev h
      rw [behindIf] at h
      split at h
      · exact ⟨(c :: s).take p.length, by rw [← some.inj h, List.take_append_drop]⟩
      · obtain ⟨a, rfl⟩ := ih c h
        exact ⟨c :: a, rfl⟩
  exact hgen s 0 h

theorem blank_notMem_hidden {x : Bytes} (h : hidden name v = some x) : blank ∉ x := by
  obtain ⟨a, ha⟩ := behind_suffix h
  intro hmem
  exact blank_notMem_written v (ha ▸ List.mem_append_right a hmem)

/-- What is hidden goes up to the closing quote, and has no other one. -/
theorem hidden_eq_concat (hname : equals ∈ ascii name) (hquote : 34 ∉ ascii name) {x : Bytes}
    (h : hidden name v = some x) : ∃ y, x = y ++ [34] ∧ 34 ∉ y := by
  cases hq : quoted v with
  | false => rw [hidden_of_not_quoted hname hq] at h; cases h
  | true =>
    have hquotes := quotes hq
    have hne : ascii name ≠ [] := List.ne_nil_of_mem hname
    rw [hidden, hquotes.text, behind_cons hne hquote, behind_append_cons hne hquote] at h
    split at h
    · rename_i y hy
      obtain ⟨a, ha⟩ := behind_suffix hy
      refine ⟨y, (some.inj h).symm, fun hmem => hquotes.quote_notMem ?_⟩
      rw [ha]
      exact List.mem_append_right a hmem
    · cases h

end Ahead

/-! ## Reading untrusted values -/

section Reading

variable {v : Option CString} (fs : List (Bytes × Bytes))

theorem cut_quoted {text : Bytes} (h : 34 ∉ text) (rest : Bytes) :
    cut 34 (text ++ 34 :: rest) = some (text, 34 :: rest) := by
  rw [cut, if_pos (by simp), takeWhile_append_cons h, dropWhile_append_cons h]

theorem head_written (h : Encodes v) : (written v ++ line fs).head? ≠ some 34 := by
  rw [List.head?_append_of_ne_nil _ h.ne_nil]
  exact beq_eq_false_iff_ne.mp h.not_quoted

theorem Quotes.text_append (h : Quotes v) :
    written v ++ line fs = 34 :: (decoded v ++ 34 :: line fs) := by
  rw [h.text]
  simp

theorem untrusted_written (unclosed : Nat) (st : Scan) (v : Option CString) :
    untrusted unclosed st (written v ++ line fs) =
      .ok (some (decoded v), if quoted v then 34 :: line fs else st.term) := by
  rcases quotes_or_encodes v with hq | he
  · rw [hq.text_append, untrusted, if_pos (List.head?_cons), List.drop_succ_cons, List.drop_zero,
      cut_quoted hq.quote_notMem, hq.quoted, if_pos rfl]
  · rw [untrusted, if_neg (head_written fs he), he.reads, he.not_quoted, if_neg Bool.false_ne_true]

/-- A value between quotes is one key. -/
theorem Quotes.keysOf (h : Quotes v) : keysOf v = [decoded v] := by
  rw [Search.keysOf]
  split
  · rename_i hnil
    rw [hnil]
  · rename_i hne
    exact words_of_notMem (fun hmem => absurd (h.plain 1 hmem).2 (by decide)) hne

theorem readKeys_written (v : Option CString) : readKeys (written v ++ line fs) = .ok (keysOf v) := by
  rcases quotes_or_encodes v with hq | he
  · rw [hq.text_append, readKeys, if_pos (List.head?_cons), List.drop_succ_cons, List.drop_zero,
      cut_quoted hq.quote_notMem, hq.keysOf]
  · rw [readKeys, if_neg (head_written fs he), he.reads, keysOf, if_neg he.decoded_ne_nil]

end Reading

/-! ## When the values are found -/

namespace SyscallRecord

variable (r : SyscallRecord) (opts : Options)

/-- The command is read from between quotes, so the next search starts behind it. -/
def passesComm : Bool := opts.comm.isSome && quoted (some r.comm)

/-- The program is read from between quotes where it is. -/
def passesExe : Bool := opts.exe.isSome && quoted r.exe && (hidden "exe=" (some r.comm)).isNone

/-- The values that a search has in front of it when the command and the program have been read. -/
def inFront : List (Option CString) :=
  if r.passesExe opts then [] else if r.passesComm opts then [r.exe] else [some r.comm, r.exe]

/-- The fields that it has in front of it. -/
def fieldsInFront : List (Bytes × Bytes) :=
  if r.passesExe opts then r.afterExe else if r.passesComm opts then r.afterComm else r.tail

/-- The text from a name of the key field that is hidden before the key. -/
def hiddenKeys : Option Bytes :=
  match hidden "key=" (some r.comm) with
  | some x => some (x ++ line r.afterComm)
  | none => (hidden "key=" r.exe).map (· ++ line r.afterExe)

/-- What the list of contexts is with the subject. -/
def withSubject (avc : Option (List Anode)) : Option (List Anode) :=
  match r.subj with
  | none => avc
  | some label => some (avc.getD [] ++ [⟨some label.1, none⟩])

/-- A record without a result has none hidden in it. -/
def SuccessReadable : Prop :=
  r.returned = false → ∀ v ∈ [some r.comm, r.exe, r.key], hidden "success=" v = none

/-- Another program in the command would have to be the same one. -/
def ExeReadable : Prop :=
  ∀ x, hidden "exe=" (some r.comm) = some x →
    x ≠ [34] ∧ unescape (x ++ line r.afterComm) = some (decoded r.exe)

/-- There is no other subject in front, and none at all if the record has none. -/
def SubjectReadable : Prop :=
  (∀ v ∈ r.inFront opts, hidden "subj=" v = none) ∧ (r.subj = none → hidden "subj=" r.key = none)

/-- The values that the search for the result has in front of it. -/
def valuesOfResult : List (Option CString) :=
  (if opts.subject.isSome && r.subj.isSome then [] else r.inFront opts) ++ [r.key]

/-- A result that is hidden in one of them is a number that can be represented. -/
def ResultReadable : Prop :=
  ∀ x, (r.valuesOfResult opts).findSome? (hidden "res=") = some x → (strtoulIn 10 x).isSome = true

/-- Other keys in front would have to be the same. -/
def KeysReadable : Prop := ∀ str, r.hiddenKeys = some str → readKeys str = .ok (keysOf r.key)

end SyscallRecord

/-- The untrusted values do not disturb the extraction with these options. -/
structure Undisturbed (opts : Options) (r : SyscallRecord) : Prop where
  success : opts.success ≠ -1 → r.SuccessReadable
  exit : opts.exitIsSet = true → r.returned = true
  exe : opts.exe.isSome = true → r.ExeReadable
  subject : opts.subject.isSome = true → r.SubjectReadable opts
  result : opts.success ≠ -1 → r.ResultReadable opts
  key : opts.key.isSome = true → r.KeysReadable

/-- The values that an option asks for are those of the record. -/
structure Extracted (opts : Options) (r : SyscallRecord) (s s' : SearchItems) : Prop where
  comm : opts.comm.isSome = true → s'.comm = some r.comm.bytes
  exe : opts.exe.isSome = true → s'.exe = some (decoded r.exe)
  subject : opts.subject.isSome = true → s'.avc = r.withSubject s.avc
  key : opts.key.isSome = true → s'.key = some (s.key.getD [] ++ (keysOf r.key).map some)

/-! ## Command and program -/

section Task

variable {r : SyscallRecord} {st : Scan} (opts : Options)

/-- The command is always found. -/
theorem getComm_eq (h : Ahead st.term r.tail) : ∃ st', getComm opts st = .ok st' ∧
      Ahead st'.term (if r.passesComm opts then r.afterComm else r.tail) ∧
      st'.items = { st.items with
        comm := if opts.comm.isSome then some r.comm.bytes else st.items.comm } := by
  cases hc : opts.comm.isSome with
  | false =>
    refine ⟨st, ?_, by simpa [passesComm, hc] using h, rfl⟩
    rw [getComm, hc]
    rfl
  | true =>
    have hfind : behind (ascii "comm=") st.term = some (written (some r.comm) ++ line r.afterComm) := by
      have hstem := h (ascii "comm") ⟨by decide, by decide⟩
      rwa [tail, findIn_cons_self rfl] at hstem
    have hget : getComm opts st = .ok { st with
        items.comm := some r.comm.bytes
        term := if quoted (some r.comm) then 34 :: line r.afterComm else st.term } := by
      rw [getComm, hc, Scan.when, if_pos rfl, required, hfind]
      simp only [untrusted_written]
      rfl
    refine ⟨_, hget, ?_, rfl⟩
    rw [passesComm, hc, Bool.true_and]
    split
    · exact (points_quote r.field_afterComm).ahead
    · exact h

/-- Where the program is looked for. -/
theorem behind_exe (r : SyscallRecord) : behind (ascii "exe=") r.message =
      match hidden "exe=" (some r.comm) with
      | some x => some (x ++ line r.afterComm)
      | none => some (written r.exe ++ line r.afterExe) := by
  have hstem := (at_message r).ahead (ascii "exe") ⟨by decide, by decide⟩
  rw [tail, findIn_cons_of_ne rfl, afterComm, findIn_cons_self rfl] at hstem
  refine hstem.trans ?_
  show Option.map textFrom (match hidden "exe=" (some r.comm) with
    | some x => some (x, r.afterComm)
    | none => some (written r.exe, r.afterExe)) = _
  cases hidden "exe=" (some r.comm) <;> rfl

/-- From a closing quote to the next quote there is more than the program. -/
theorem ne_decoded_exe {text term : Bytes} (h : cut 34 (line r.afterComm) = some (text, term)) :
    text ≠ decoded r.exe := by
  have hline : line r.afterComm = (blank :: ascii "exe=") ++ (written r.exe ++ line r.afterExe) := by
    rw [afterComm, line_cons]
    rfl
  have htext : text = (blank :: ascii "exe=") ++ (written r.exe ++ line r.afterExe).takeWhile (· != 34) := by
    rw [cut] at h
    split at h
    · rw [← (Prod.mk.inj (some.inj h)).1, hline]
      exact takeWhile_append_of_notMem (by decide) _
    · cases h
  intro heq
  rcases quotes_or_encodes r.exe with hq | he
  · refine hq.blank_notMem ?_
    simp_all
  · have hquote : 34 ∉ written r.exe := fun hmem => (he.text 34 hmem).1 rfl
    rw [takeWhile_append_of_notMem hquote] at htext
    have hlen := congrArg List.length (heq.symm.trans htext)
    have hle := he.length_le
    simp only [List.length_append, List.length_cons] at hlen
    omega

/-- What is hidden is not in quotes of its own, unless it is only the closing one. -/
theorem head_hidden {name : String} {v : Option CString} {x : Bytes} (hname : equals ∈ ascii name)
    (hquote : 34 ∉ ascii name) (h : hidden name v = some x) (hne : x ≠ [34]) (rest : Bytes) :
    (x ++ rest).head? ≠ some 34 := by
  obtain ⟨y, rfl, hy⟩ := hidden_eq_concat hname hquote h
  cases y with
  | nil => exact absurd rfl hne
  | cons c y =>
    intro hhead
    exact hy (some.inj hhead ▸ List.mem_cons_self)

theorem getExe_eq (hc : opts.exe.isSome = true → r.ExeReadable)
    (h : Ahead st.term (if r.passesComm opts then r.afterComm else r.tail)) :
    ∃ st', getExe opts r.message st = .ok st' ∧ Ahead st'.term (r.fieldsInFront opts) ∧
      st'.items = { st.items with
        exe := if opts.exe.isSome then some (decoded r.exe) else st.items.exe } := by
  cases hact : opts.exe.isSome with
  | false =>
    refine ⟨st, ?_, by simpa [fieldsInFront, passesExe, hact] using h, rfl⟩
    rw [getExe, hact]
    rfl
  | true =>
    rw [getExe, hact, Scan.when, if_pos rfl, behind_exe]
    cases hhid : hidden "exe=" (some r.comm) with
    | some x =>
      obtain ⟨hne, hread⟩ := hc hact x hhid
      have hhead := head_hidden (by decide) (by decide) hhid hne (line r.afterComm)
      simp only [untrusted, if_neg hhead, hread]
      exact ⟨_, rfl, by simpa [fieldsInFront, passesExe, hhid] using h, rfl⟩
    | none =>
      simp only [untrusted_written]
      refine ⟨_, rfl, ?_, rfl⟩
      rw [fieldsInFront, passesExe, hact, hhid]
      cases hq : quoted r.exe with
      | true => exact (points_quote r.field_afterExe).ahead
      | false => exact h

theorem getExe_ne (hact : opts.exe.isSome = true) (hc : ¬ r.ExeReadable) {st' : Scan}
    (h : getExe opts r.message st = .ok st') : st'.items.exe ≠ some (decoded r.exe) := by
  rw [ExeReadable] at hc
  push Not at hc
  obtain ⟨x, hhid, hc⟩ := hc
  rw [getExe, hact, Scan.when, if_pos rfl, behind_exe, hhid] at h
  by_cases hne : x = [34]
  · subst hne
    have hhead : ([34] ++ line r.afterComm).head? = some 34 := rfl
    have hdrop : ([34] ++ line r.afterComm).drop 1 = line r.afterComm := rfl
    simp only [untrusted, if_pos hhead, hdrop] at h
    cases hcut : cut 34 (line r.afterComm) with
    | none => rw [hcut] at h; cases h
    | some found =>
      rw [hcut] at h
      injection h with h
      rw [← h]
      exact fun heq => ne_decoded_exe hcut (some.inj heq)
  · have hhead := head_hidden (by decide) (by decide) hhid hne (line r.afterComm)
    simp only [untrusted, if_neg hhead] at h
    injection h with h
    rw [← h]
    exact hc hne

end Task

/-! ## Subject, result and keys -/

section Late

variable {r : SyscallRecord} {st st' : Scan} (opts : Options) (stem : Bytes)

/-- The search does not end at the names of the command and of the program. -/
structure Passing (stem : Bytes) : Prop where
  comm : endsWith (fun _ => true) stem blank (ascii "comm") = false
  exe : endsWith (fun _ => true) stem blank (ascii "exe") = false

/-- Nothing is hidden in front. -/
theorem findIn_front_none (hstem : Passing stem)
    (h : ∀ v ∈ r.inFront opts, behind (stem ++ [equals]) (written v) = none) :
    findIn (fun _ => true) stem (r.fieldsInFront opts) = findIn (fun _ => true) stem r.afterExe := by
  rw [inFront] at h
  rw [fieldsInFront]
  split
  · rfl
  · rename_i hexe
    rw [if_neg hexe] at h
    split
    · rename_i hcomm
      rw [if_pos hcomm] at h
      rw [afterComm, findIn_cons_of_ne hstem.exe, h r.exe (by simp)]
    · rename_i hcomm
      rw [if_neg hcomm] at h
      rw [tail, findIn_cons_of_ne hstem.comm, h (some r.comm) (by simp),
        afterComm, findIn_cons_of_ne hstem.exe, h r.exe (by simp)]

/-- Something is hidden in front. -/
theorem findIn_front_some (hstem : Passing stem) {x : Bytes}
    (h : (r.inFront opts).findSome? (fun v => behind (stem ++ [equals]) (written v)) = some x) :
    ∃ fs, fs ≠ [] ∧ findIn (fun _ => true) stem (r.fieldsInFront opts) = some (x, fs) := by
  have hne : r.afterExe ≠ [] := List.append_ne_nil_of_right_ne_nil _ (List.cons_ne_nil _ _)
  have hexe : behind (stem ++ [equals]) (written r.exe) = some x →
      findIn (fun _ => true) stem r.afterComm = some (x, r.afterExe) := by
    intro hx
    rw [afterComm, findIn_cons_of_ne hstem.exe, hx]
  rw [inFront] at h
  rw [fieldsInFront]
  split
  · rename_i hpass
    rw [if_pos hpass] at h
    cases h
  · rename_i hpass
    rw [if_neg hpass] at h
    split
    · simp_all
    · rename_i hcomm
      rw [if_neg hcomm, List.findSome?_cons] at h
      rw [tail, findIn_cons_of_ne hstem.comm]
      cases hx : behind (stem ++ [equals]) (written (some r.comm)) with
      | some y =>
        rw [hx] at h
        exact ⟨r.afterComm, List.cons_ne_nil _ _, congrArg (Option.map (·, r.afterComm)) h⟩
      | none =>
        simp_all

/-- The subject is found in its field, or not at all. -/
theorem findIn_subj (h : r.SubjectReadable opts) :
    findIn (fun _ => true) (ascii "subj") (r.fieldsInFront opts) =
      r.subj.map fun label => (label.1, [(ascii "key", written r.key)]) := by
  rw [findIn_front_none opts (ascii "subj") ⟨rfl, rfl⟩ h.1, afterExe]
  cases hsubj : r.subj with
  | some label => exact findIn_cons_self rfl _
  | none =>
    have hkey : behind (ascii "subj" ++ [equals]) (written r.key) = none := h.2 hsubj
    show findIn (fun _ => true) (ascii "subj") [(ascii "key", written r.key)] = none
    rw [findIn_cons_of_ne rfl, hkey]
    rfl

/-- The fields that the search for the result has in front of it. -/
def fieldsOfResult (r : SyscallRecord) (opts : Options) : List (Bytes × Bytes) :=
  if opts.subject.isSome && r.subj.isSome then [(ascii "key", written r.key)] else r.fieldsInFront opts

theorem field_key (r : SyscallRecord) : ∀ f ∈ [(ascii "key", written r.key)], Field f :=
  List.forall_mem_singleton.mpr (field_written (by decide) _)

theorem getSubj_eq (hc : opts.subject.isSome = true → r.SubjectReadable opts)
    (h : Ahead st.term (r.fieldsInFront opts)) :
    ∃ st', getSubj opts st = .ok st' ∧ Ahead st'.term (fieldsOfResult r opts) ∧
      st'.items = { st.items with
        avc := if opts.subject.isSome then r.withSubject st.items.avc else st.items.avc } := by
  cases hact : opts.subject.isSome with
  | false =>
    refine ⟨st, ?_, by simpa [fieldsOfResult, hact] using h, rfl⟩
    rw [getSubj, hact]
    rfl
  | true =>
    have hstem : behind (ascii "subj=") st.term = _ := h (ascii "subj") ⟨by decide, by decide⟩
    rw [findIn_subj opts (hc hact)] at hstem
    rw [getSubj, hact, Scan.when, if_pos rfl, Scan.optional, hstem, withSubject]
    cases hsubj : r.subj with
    | none => exact ⟨st, rfl, by simpa [fieldsOfResult, hsubj] using h, rfl⟩
    | some label =>
      have hcut : cut blank (label.1 ++ line [(ascii "key", written r.key)]) = some (label.1, _) :=
        cut_line (fun hmem => (label.2 blank hmem).2.1 rfl) (List.cons_ne_nil _ _)
      simp only [map_some, textFrom, number, hcut]
      refine ⟨_, rfl, ?_, rfl⟩
      rw [fieldsOfResult, hact, hsubj]
      exact (points_line (field_key r)).ahead

/-- A subject that is hidden is not the one of the record. -/
theorem append_ne_withSubject {x : Bytes} (hx : 34 ∈ x) (avc : Option (List Anode)) :
    some (avc.getD [] ++ [⟨some x, none⟩]) ≠ r.withSubject avc := by
  intro heq
  rw [withSubject] at heq
  split at heq
  · cases avc with
    | none => cases heq
    | some l =>
      have hlen := congrArg List.length (some.inj heq)
      simp at hlen
  · rename_i label _
    have hlast := List.append_cancel_left (some.inj heq)
    injection hlast with hlast
    injection hlast with hlabel
    exact (label.2 34 (some.inj hlabel ▸ hx)).2.2.1 rfl

theorem getSubj_ne (hact : opts.subject.isSome = true) (hc : ¬ r.SubjectReadable opts)
    (hst : Ahead st.term (r.fieldsInFront opts)) (h : getSubj opts st = .ok st') :
    st'.items.avc ≠ r.withSubject st.items.avc := by
  have hstem : behind (ascii "subj=") st.term = _ := hst (ascii "subj") ⟨by decide, by decide⟩
  rw [getSubj, hact, Scan.when, if_pos rfl, Scan.optional, hstem] at h
  cases hfront : (r.inFront opts).findSome? (hidden "subj=") with
  | some x =>
    obtain ⟨v, -, hv⟩ := List.exists_of_findSome?_eq_some hfront
    obtain ⟨fs, hfs, hfind⟩ := findIn_front_some opts (ascii "subj") ⟨rfl, rfl⟩ hfront
    have hcut : cut blank (x ++ line fs) = _ := cut_line (blank_notMem_hidden hv) hfs
    obtain ⟨y, rfl, -⟩ := hidden_eq_concat (by decide) (by decide) hv
    rw [hfind] at h
    simp only [map_some, textFrom, number, hcut] at h
    injection h with h
    rw [← h]
    exact append_ne_withSubject (by simp) _
  | none =>
    rw [List.findSome?_eq_none_iff] at hfront
    rw [findIn_front_none opts (ascii "subj") ⟨rfl, rfl⟩ hfront] at h
    -- the record has no subject, and the key has one hidden in it, with no blank behind it
    have hkey : r.subj = none ∧ hidden "subj=" r.key ≠ none := by
      by_contra hno
      refine hc ⟨hfront, fun hnone => ?_⟩
      by_contra hsome
      exact hno ⟨hnone, hsome⟩
    obtain ⟨hnone, hsome⟩ := hkey
    obtain ⟨x, hx⟩ := ne_none_iff_exists'.mp hsome
    have hx' : behind (ascii "subj" ++ [equals]) (written r.key) = some x := hx
    have hfind : findIn (fun _ => true) (ascii "subj") r.afterExe = some (x, []) := by
      rw [afterExe, hnone]
      show findIn (fun _ => true) (ascii "subj") [(ascii "key", written r.key)] = some (x, [])
      rw [findIn_cons_of_ne rfl, hx']
    rw [hfind] at h
    simp only [map_some, textFrom, number, cut_last (blank_notMem_hidden hx)] at h
    cases h

/-- The end of the record is searched in the key only, for a name that it does not have. -/
theorem findIn_afterExe (hsubj : endsWith (fun _ => true) stem blank (ascii "subj") = false)
    (hkey : endsWith (fun _ => true) stem blank (ascii "key") = false) :
    findIn (fun _ => true) stem r.afterExe =
      (behind (stem ++ [equals]) (written r.key)).map (·, []) := by
  rw [afterExe, findIn_append]
  · rw [findIn_cons_of_ne hkey]
    cases behind (stem ++ [equals]) (written r.key) <;> rfl
  · intro f hf
    obtain ⟨label, -, rfl⟩ := List.mem_map.mp hf
    exact ⟨hsubj, label.2.equals_notMem⟩

/-- What the search for the result finds. -/
theorem findIn_res (r : SyscallRecord) :
    (findIn (fun _ => true) (ascii "res") (fieldsOfResult r opts)).map Prod.fst =
      (r.valuesOfResult opts).findSome? (hidden "res=") := by
  have hkey : ([r.key].findSome? (hidden "res=")) =
      behind (ascii "res" ++ [equals]) (written r.key) := by
    rw [List.findSome?_singleton]
    rfl
  rw [fieldsOfResult, valuesOfResult, List.findSome?_append, hkey]
  split
  · rw [findIn_cons_of_ne rfl]
    cases behind (ascii "res" ++ [equals]) (written r.key) <;> rfl
  · cases hfront : (r.inFront opts).findSome? (hidden "res=") with
    | some x =>
      obtain ⟨fs, -, hfind⟩ := findIn_front_some opts (ascii "res") ⟨rfl, rfl⟩ hfront
      rw [hfind]
      rfl
    | none =>
      rw [findIn_front_none opts (ascii "res") ⟨rfl, rfl⟩ (List.findSome?_eq_none_iff.mp hfront),
        findIn_afterExe (ascii "res") rfl rfl]
      cases behind (ascii "res" ++ [equals]) (written r.key) <;> rfl

theorem takeWhile_line {x : Bytes} (hx : blank ∉ x) (fs : List (Bytes × Bytes)) :
    (x ++ line fs).takeWhile (· != blank) = x := by
  rw [takeWhile_append_of_notMem hx]
  cases fs with
  | nil => exact List.append_nil x
  | cons f fs =>
    rw [line_cons, List.takeWhile_cons_of_neg (by simp), List.append_nil]

theorem getRes_isOk_iff (hst : Ahead st.term (fieldsOfResult r opts)) :
    (∃ st', getRes opts st = .ok st') ↔ (opts.success ≠ -1 → r.ResultReadable opts) := by
  by_cases hact : opts.success = -1
  · refine ⟨fun _ h => absurd hact h, fun _ => ⟨st, ?_⟩⟩
    rw [getRes, hact]
    rfl
  · have hstem : behind (ascii "res=") st.term = _ := hst (ascii "res") ⟨by decide, by decide⟩
    have hact' : (opts.success != -1) = true := bne_iff_ne.mpr hact
    have hres := findIn_res opts r
    rw [getRes, hact', Scan.when, if_pos rfl, Scan.optional, hstem]
    simp only [ResultReadable, ← hres, ne_eq, hact, not_false_eq_true, forall_const]
    cases hfind : findIn (fun _ => true) (ascii "res") (fieldsOfResult r opts) with
    | none => exact ⟨fun _ _ h => (by cases h), fun _ => ⟨st, rfl⟩⟩
    | some found =>
      obtain ⟨v, -, hv⟩ := List.exists_of_findSome?_eq_some (hres.symm.trans (congrArg _ hfind))
      have hread := takeWhile_line (blank_notMem_hidden hv) found.2
      simp only [map_some, textFrom, hread, some_inj, forall_eq']
      cases strtoulIn 10 found.1 with
      | none => exact ⟨fun h => (by obtain ⟨_, h⟩ := h; cases h), fun h => (by cases h)⟩
      | some n => exact ⟨fun _ => rfl, fun _ => ⟨_, rfl⟩⟩

/-- Where the keys are looked for. -/
theorem behind_key {term : Bytes} (h : Ahead term r.tail) :
    behind (ascii "key=") term = some (r.hiddenKeys.getD (written r.key ++ line [])) := by
  have hstem : behind (ascii "key=") term = _ := h (ascii "key") ⟨by decide, by decide⟩
  have hlast : findIn (fun _ => true) (ascii "key") r.afterExe = some (written r.key, []) := by
    rw [afterExe, findIn_append, findIn_cons_self rfl]
    intro f hf
    obtain ⟨label, -, rfl⟩ := List.mem_map.mp hf
    exact ⟨rfl, label.2.equals_notMem⟩
  rw [tail, findIn_cons_of_ne rfl, afterComm, findIn_cons_of_ne rfl, hlast] at hstem
  rw [hstem, hiddenKeys, hidden, hidden]
  show Option.map textFrom (match behind (ascii "key=") (written (some r.comm)) with
    | some x => some (x, r.afterComm)
    | none => match behind (ascii "key=") (written r.exe) with
      | some x => some (x, r.afterExe)
      | none => some (written r.key, [])) = _
  cases behind (ascii "key=") (written (some r.comm)) with
  | some x => rfl
  | none => cases behind (ascii "key=") (written r.exe) <;> rfl

theorem addKeys_iff (st : Scan) (str : Bytes) (keys : List Bytes) : (∃ st', addKeys st str = .ok st' ∧
        st'.items.key = some (st.items.key.getD [] ++ keys.map some)) ↔ readKeys str = .ok keys := by
  rw [addKeys]
  cases readKeys str with
  | error e => exact ⟨fun h => (by obtain ⟨_, h, -⟩ := h; cases h), fun h => (by cases h)⟩
  | ok found =>
    constructor
    · rintro ⟨st', h, hkey⟩
      rw [← Except.ok.inj h] at hkey
      have hmap := List.append_cancel_left (some.inj hkey)
      rw [List.map_injective_iff.mpr (some_injective _) hmap]
    · intro h
      rw [Except.ok.inj h]
      exact ⟨_, rfl, rfl⟩

/-- The keys are extracted, or those that are hidden in front of them. -/
theorem getKey_iff {term : Bytes} (hact : opts.key.isSome = true) (h : Ahead term r.tail) :
    (∃ st', getKey opts term st = .ok st' ∧
        st'.items.key = some (st.items.key.getD [] ++ (keysOf r.key).map some)) ↔ r.KeysReadable := by
  have hget : getKey opts term st = addKeys st (r.hiddenKeys.getD (written r.key ++ line [])) := by
    rw [getKey, hact, Scan.when, if_pos rfl, behind_key h]
  rw [hget, addKeys_iff, KeysReadable]
  cases r.hiddenKeys with
  | some str => simp
  | none =>
    have hread := readKeys_written [] r.key
    simp_all

end Late

end LibAudit.Search
