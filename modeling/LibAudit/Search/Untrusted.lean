import LibAudit.Lib.Ensures
import LibAudit.Search.Hidden

/-!
# Untrusted values and the extraction from a record

`ausearch` looks for the fields of a SYSCALL record with `strstr`.  A user who can choose the name of a
command can write `key=` into it, and the kernel leaves it readable, between quotes.  The search for the
key starts before the command, so it ends there.

`extracts_iff` says for which records and options the values of the record are extracted nevertheless.
The command is always right; the program, the subject and the keys are wrong as soon as their names are
hidden in a value that the search has in front of it, but for the chance that what is read there is the
right value.  The result of the system call can also be hidden in values, and make the function give up.
-/

namespace LibAudit.Search

open Find Scan SyscallRecord Option

/-! ## Results that are not there

A record without a result has neither `success=` nor `exit=`.  If one of them is found in an untrusted
value, the arguments are behind, and there are not enough fields left in which they could be found. -/

section Arguments

variable {r : SyscallRecord} {st st' : Scan} {s : SearchItems}

/-- The last fields of the record, from the untrusted values on. -/
def lastFields (r : SyscallRecord) : Nat → List (Bytes × Bytes)
  | 0 => []
  | 1 => r.afterExe
  | 2 => r.afterComm
  | _ => r.tail

/-- A name that the end of the record does not have. -/
structure Elsewhere (stem : Bytes) : Prop extends Sought stem, Passing stem where
  subj : endsWith (fun _ => true) stem Find.blank (ascii "subj") = false
  key : endsWith (fun _ => true) stem Find.blank (ascii "key") = false

theorem findIn_lastFields {stem x : Bytes} {fs : List (Bytes × Bytes)} (hstem : Elsewhere stem) {j : Nat}
    (hj : j ≤ 3) (h : findIn (fun _ => true) stem (lastFields r j) = some (x, fs)) :
    blank ∉ x ∧ ∃ i < j, fs = lastFields r i := by
  have hvalue : ∀ v, behind (stem ++ [equals]) (written v) = some x → blank ∉ x := by
    intro v hv hmem
    obtain ⟨a, ha⟩ := behind_suffix hv
    exact blank_notMem_written v (ha ▸ List.mem_append_right a hmem)
  induction j with
  | zero => cases h
  | succ j ih =>
    match j, hj with
    | 0, _ =>
      rw [lastFields, findIn_afterExe stem hstem.subj hstem.key, map_eq_some_iff] at h
      obtain ⟨y, hy, hxy⟩ := h
      obtain ⟨rfl, rfl⟩ := Prod.mk.inj hxy
      exact ⟨hvalue _ hy, 0, Nat.zero_lt_one, rfl⟩
    | 1, _ =>
      rw [lastFields, afterComm, findIn_cons_of_ne hstem.exe] at h
      split at h
      · rename_i y hy
        obtain ⟨rfl, rfl⟩ := Prod.mk.inj (some.inj h)
        exact ⟨hvalue _ hy, 1, by omega, rfl⟩
      · obtain ⟨hx, i, hi, hfs⟩ := ih (by omega) h
        exact ⟨hx, i, by omega, hfs⟩
    | 2, _ =>
      have htail : lastFields r 3 = r.tail := rfl
      rw [htail, tail, findIn_cons_of_ne hstem.comm] at h
      split at h
      · rename_i y hy
        obtain ⟨rfl, rfl⟩ := Prod.mk.inj (some.inj h)
        exact ⟨hvalue (some r.comm) hy, 2, by omega, rfl⟩
      · obtain ⟨hx, i, hi, hfs⟩ := ih (by omega) h
        exact ⟨hx, i, by omega, hfs⟩

theorem field_lastFields (r : SyscallRecord) (j : Nat) : ∀ f ∈ lastFields r j, Field f := by
  rcases j with _ | _ | _ | j
  · exact nofun
  · exact r.field_afterExe
  · exact r.field_afterComm
  · exact r.field_tail

section Steps

variable {α : Type} {read : Bytes → Option α} {noBlank range : Nat} {put : Scan → α → Scan}

theorem cut_of_number {ptr : Bytes} (h : number read noBlank range put st ptr = .ok st') :
    ∃ text, cut blank ptr = some (text, st'.term) := by
  rw [number] at h
  grind

/-- Whatever is read at the end of the record, there is less left than before. -/
theorem number_lastFields {stem ptr : Bytes} (hstem : Elsewhere stem) {j : Nat} (hj : j ≤ 3)
    (hfind : (findIn (fun _ => true) stem (lastFields r j)).map textFrom = some ptr)
    (h : number read noBlank range put st ptr = .ok st') :
    ∃ i < j, 0 < i ∧ Points st'.term (lastFields r i) := by
  obtain ⟨⟨x, fs⟩, hfound, hptr⟩ := map_eq_some_iff.mp hfind
  obtain ⟨hx, i, hi, hfs⟩ := findIn_lastFields hstem hj hfound
  subst hfs
  obtain ⟨text, hcut⟩ := cut_of_number h
  rw [← hptr] at hcut
  rcases Nat.eq_zero_or_pos i with rfl | hpos
  · exact absurd ((cut_last hx).symm.trans hcut) nofun
  · have hne : lastFields r i ≠ [] := by
      rcases i with _ | _ | _ | i
      · omega
      · exact List.append_ne_nil_of_right_ne_nil _ (List.cons_ne_nil _ _)
      · exact List.cons_ne_nil _ _
      · exact List.cons_ne_nil _ _
    have hterm := some.inj ((cut_line hx hne).symm.trans hcut)
    refine ⟨i, hi, hpos, ?_⟩
    rw [← (Prod.mk.inj hterm).2]
    exact points_line (field_lastFields r i)

/-- A field that has to be there is looked for at the end of the record. -/
theorem required_lastFields {name : String} {missing : Nat} (stem : Bytes)
    (hname : ascii name = stem ++ [equals]) (hstem : Elsewhere stem) {j : Nat} (hj : j ≤ 3)
    (hst : Points st.term (lastFields r j))
    (h : required name missing (number read noBlank range put) st = .ok st') :
    ∃ i < j, 0 < i ∧ Points st'.term (lastFields r i) := by
  have hfind : behind (stem ++ [equals]) st.term = _ := hst _ hstem.toSought
  rw [required, hname, hfind] at h
  split at h
  · cases h
  · rename_i ptr hptr
    exact number_lastFields hstem hj hptr h

end Steps

theorem elsewhere {stem : Bytes} (h : Sought stem ∧
    ∀ name ∈ [ascii "comm", ascii "exe", ascii "subj", ascii "key"],
      endsWith (fun _ => true) stem blank name = false) : Elsewhere stem :=
  ⟨h.1, ⟨h.2 _ (by simp), h.2 _ (by simp)⟩, h.2 _ (by simp), h.2 _ (by simp)⟩

/-- There is no room for both arguments behind the command. -/
theorem not_getA0_getA1 {j : Nat} (hj : j ≤ 2) (hst : Points st.term (lastFields r j)) {st₁ : Scan}
    (h₀ : getA0 st = .ok st₁) (h₁ : getA1 st₁ = .ok st') : False := by
  obtain ⟨i, hi, -, hst₁⟩ := required_lastFields (ascii "a0") rfl (elsewhere (by decide)) (by omega) hst h₀
  obtain ⟨k, hk, hpos, -⟩ := required_lastFields (ascii "a1") rfl (elsewhere (by decide)) (by omega) hst₁ h₁
  omega

theorem findIn_tail_eq_none {stem : Bytes} (hstem : Elsewhere stem) :
    findIn (fun _ => true) stem r.tail = none ↔
      ∀ v ∈ [some r.comm, r.exe, r.key], behind (stem ++ [equals]) (written v) = none := by
  rw [tail, findIn_cons_of_ne hstem.comm, afterComm,
    findIn_cons_of_ne hstem.exe, findIn_afterExe stem hstem.subj hstem.key]
  cases hcomm : behind (stem ++ [equals]) (written (some r.comm)) with
  | some x => simp [hcomm]
  | none =>
    cases hexe : behind (stem ++ [equals]) (written r.exe) with
    | some x => simp [hexe]
    | none => simp [hcomm, hexe]

variable (opts : Options) (interp : Bool)

theorem elsewhere_success : Elsewhere (ascii "success") := elsewhere (by decide)

theorem elsewhere_exit : Elsewhere (ascii "exit") := elsewhere (by decide)

/-- A name of a result that is not there is looked for at the end of the record. -/
theorem At.behind_success (hret : r.returned = false) {k : Nat} {s : Bytes} (h : At r k s) :
    behind (ascii "success=") s = (findIn (fun _ => true) (ascii "success") r.tail).map textFrom := by
  refine h.pass elsewhere_success.toSought fun m _ hhas => ?_
  cases m <;> first | rfl | cases (hret.symm.trans hhas)

theorem At.behind_exit (hret : r.returned = false) {k : Nat} {s : Bytes} (h : At r k s) :
    behind (ascii "exit=") s = (findIn (fun _ => true) (ascii "exit") r.tail).map textFrom := by
  refine h.pass elsewhere_exit.toSought fun m _ hhas => ?_
  cases m <;> first | rfl | cases (hret.symm.trans hhas)

/-- The arguments are found. -/
theorem reaches_parseArguments (hsuccess : opts.success ≠ -1 → r.SuccessReadable)
    (hexit : opts.exitIsSet = true → r.returned = true) :
    Reaches r s 10 (parseArguments opts interp r.message s) := by
  refine (reaches_getArch opts interp ⟨rfl, rfl, rfl, rfl⟩ ((at_message r).mono (by omega))).bind
    fun h hsame => ?_
  refine (reaches_getSyscall hsame h).bind fun {st} h hsame => ?_
  cases hret : r.returned with
  | true =>
    refine (reaches_getSuccess opts hsame hret (h.mono (by omega))).bind fun h hsame => ?_
    refine (reaches_getExit opts hsame hret h).bind fun h hsame => ?_
    exact (reaches_getA0 hsame h).bind fun h hsame => reaches_getA1 hsame h
  | false =>
    have hok : getSuccess opts st = .ok st := by
      by_cases hact : opts.success = -1
      · rw [getSuccess, hact]
        rfl
      · have hnone := (findIn_tail_eq_none elsewhere_success).mpr (hsuccess hact hret)
        rw [getSuccess, bne_iff_ne.mpr hact, Scan.when, if_pos rfl, Scan.optional,
          h.behind_success hret, hnone]
        rfl
    have hok' : getExit opts st = .ok st := by
      have hact : opts.exitIsSet = false := by simp_all
      rw [getExit, hact]
      rfl
    rw [hok]
    show Reaches r s 10 (getExit opts st >>= fun st => getA0 st >>= getA1)
    rw [hok']
    exact (reaches_getA0 hsame (h.mono (by omega))).bind fun h hsame => reaches_getA1 hsame h

/-- A step that an option asks for has been made. -/
theorem when_of_true {active : Bool} {step : Scan → Except Nat Scan} (hact : active = true)
    (h : Scan.when active step st = .ok st') : step st = .ok st' := by
  rwa [Scan.when, if_pos hact] at h

/-- If they are found, there were no other results in front of them. -/
theorem readable_of_parseArguments {args : Scan}
    (h : parseArguments opts interp r.message s = .ok args) :
    (opts.success ≠ -1 → r.SuccessReadable) ∧ (opts.exitIsSet = true → r.returned = true) := by
  obtain ⟨st₁, h₁, h⟩ := exists_of_bind_eq_ok h
  obtain ⟨st₂, h₂, h⟩ := exists_of_bind_eq_ok h
  obtain ⟨st₃, h₃, h⟩ := exists_of_bind_eq_ok h
  obtain ⟨st₄, h₄, h⟩ := exists_of_bind_eq_ok h
  obtain ⟨st₅, h₅, h₆⟩ := exists_of_bind_eq_ok h
  cases hret : r.returned with
  | true => exact ⟨fun _ hfalse => (nomatch hret.symm.trans hfalse), fun _ => rfl⟩
  | false =>
    -- the cursor after `syscall`
    obtain ⟨st, hst, hat⟩ : ∃ st, st = st₂ ∧ At r 5 st.term := by
      have harch : Reaches r s 4 (getArch opts interp ⟨s, 0, 0, r.message⟩) :=
        reaches_getArch opts interp ⟨rfl, rfl, rfl, rfl⟩ ((at_message r).mono (by omega))
      obtain ⟨a, ha, hat, hsame⟩ := harch
      obtain ⟨b, hb, hat, -⟩ := reaches_getSyscall hsame hat
      simp_all
    subst hst
    -- what is found in the end of the record leaves no room for the arguments
    have hexit : ∀ {j}, j ≤ 2 → Points st₃.term (lastFields r j) → False := by
      intro j hj hpoints
      cases hact : opts.exitIsSet with
      | false =>
        rw [getExit, hact] at h₄
        obtain rfl := Except.ok.inj h₄
        exact not_getA0_getA1 hj hpoints h₅ h₆
      | true =>
        have hstep := when_of_true hact h₄
        obtain ⟨i, hi, -, hpoints'⟩ :=
          required_lastFields (ascii "exit") rfl elsewhere_exit (by omega) hpoints hstep
        exact not_getA0_getA1 (by omega) hpoints' h₅ h₆
    have hnone : opts.success ≠ -1 → findIn (fun _ => true) (ascii "success") r.tail = none := by
      intro hact
      by_contra hsome
      obtain ⟨found, hfound⟩ := ne_none_iff_exists'.mp hsome
      have hstep := when_of_true (bne_iff_ne.mpr hact) h₃
      have hptr : behind (ascii "success=") st.term = some (textFrom found) := by
        rw [hat.behind_success hret, hfound]
        rfl
      rw [Scan.optional, hptr] at hstep
      obtain ⟨i, hi, -, hpoints⟩ := number_lastFields (r := r) (j := 3) elsewhere_success (by omega)
        (congrArg (Option.map textFrom) hfound) hstep
      exact hexit (by omega) hpoints
    refine ⟨fun hact _ => (findIn_tail_eq_none elsewhere_success).mp (hnone hact), fun hact => ?_⟩
    exfalso
    -- no result was found before, so the search for the exit code starts at the same place
    have hsame : st₃ = st := by
      by_cases hact' : opts.success = -1
      · rw [getSuccess, hact'] at h₃
        exact (Except.ok.inj h₃).symm
      · have hstep := when_of_true (bne_iff_ne.mpr hact') h₃
        rw [Scan.optional, hat.behind_success hret, hnone hact'] at hstep
        exact (Except.ok.inj hstep).symm
    subst hsame
    have hstep := when_of_true hact h₄
    rw [required, hat.behind_exit hret] at hstep
    split at hstep
    · cases hstep
    · rename_i ptr hptr
      obtain ⟨i, hi, -, hpoints⟩ := number_lastFields (r := r) (j := 3) elsewhere_exit (by omega) hptr hstep
      exact not_getA0_getA1 (by omega) hpoints h₅ h₆

end Arguments

/-! ## The whole record -/

section Items

variable {st st' : Scan} {opts : Options}

theorem getSubj_items (h : getSubj opts st = .ok st') :
    ∃ avc, st'.items = { st.items with avc := avc } := by
  simp only [getSubj, Scan.when, Scan.optional, number] at h
  repeat' split at h
  all_goals cases h
  all_goals exact ⟨_, rfl⟩

theorem getRes_items (h : getRes opts st = .ok st') :
    ∃ n, st'.items = { st.items with success := n } := by
  rw [getRes, Scan.when, Scan.optional] at h
  repeat' split at h
  all_goals cases h
  all_goals exact ⟨_, rfl⟩

theorem getKey_items {term : Bytes} (h : getKey opts term st = .ok st') :
    ∃ keys, st'.items = { st.items with key := keys } := by
  simp only [getKey, Scan.when, addKeys] at h
  repeat' split at h
  all_goals cases h
  all_goals exact ⟨_, rfl⟩

end Items

section Record

variable (opts : Options) (interp : Bool) (lookupUid : Bytes → UInt32 → Option Bytes)
  (r : SyscallRecord) (s : SearchItems)

/-- `parse_syscall` succeeds, and extracts the values that the record has. -/
def Extracts : Prop :=
  ∃ st, parseSyscall opts interp lookupUid r.message s = .ok st ∧ Extracted opts r s st.items

variable {opts interp lookupUid r s}

theorem undisturbed_of_extracts (h : Extracts opts interp lookupUid r s) : Undisturbed opts r := by
  obtain ⟨st, hparse, hright⟩ := h
  obtain ⟨args, hargs, hparse⟩ := exists_of_bind_eq_ok hparse
  obtain ⟨st₅, htask, hkey⟩ := exists_of_bind_eq_ok hparse
  obtain ⟨st₁, h₁, htask⟩ := exists_of_bind_eq_ok htask
  obtain ⟨st₂, h₂, htask⟩ := exists_of_bind_eq_ok htask
  obtain ⟨st₃, h₃, htask⟩ := exists_of_bind_eq_ok htask
  obtain ⟨st₄, h₄, h₅⟩ := exists_of_bind_eq_ok htask
  obtain ⟨hsuccess, hexit⟩ := readable_of_parseArguments opts interp hargs
  -- up to the command the run is known
  obtain ⟨hat, hsame⟩ : At r 10 args.term ∧ Same s args.items := by
    obtain ⟨a, ha, hat, hsame⟩ := reaches_parseArguments (s := s) opts interp hsuccess hexit
    rw [hargs] at ha
    exact Except.ok.inj ha ▸ ⟨hat, hsame⟩
  obtain ⟨hat₁, hsame₁⟩ : At r 26 st₁.term ∧ Same s st₁.items := by
    have hids : Reaches r s 26 (parseIds opts lookupUid { args with term := r.message }) :=
      reaches_parseIds opts lookupUid hsame (at_message r)
    obtain ⟨a, ha, hat, hsame⟩ := hids
    rw [h₁] at ha
    exact Except.ok.inj ha ▸ ⟨hat, hsame⟩
  obtain ⟨st', hst', hterm₂, hitems₂⟩ := getComm_eq opts hat₁.ahead
  rw [hst'] at h₂
  obtain rfl := Except.ok.inj h₂
  obtain ⟨_, hkeys⟩ := getKey_items hkey
  obtain ⟨_, hres⟩ := getRes_items h₅
  -- the program must not be spoiled, since no step changes it later
  have hexe : opts.exe.isSome = true → r.ExeReadable := by
    intro hact
    by_contra hno
    obtain ⟨_, havc⟩ := getSubj_items h₄
    have hkept : st.items.exe = st₃.items.exe := by rw [hkeys, hres, havc]
    exact getExe_ne opts hact hno h₃ (hkept.symm.trans (hright.exe hact))
  obtain ⟨st', hst', hterm₃, hitems₃⟩ := getExe_eq opts hexe hterm₂
  rw [hst'] at h₃
  obtain rfl := Except.ok.inj h₃
  have hsubject : opts.subject.isSome = true → r.SubjectReadable opts := by
    intro hact
    by_contra hno
    have hkept : st.items.avc = st₄.items.avc := by rw [hkeys, hres]
    refine getSubj_ne opts hact hno hterm₃ h₄ ?_
    rw [← hkept, hright.subject hact, hitems₃, hitems₂]
    exact congrArg r.withSubject hsame₁.avc.symm
  obtain ⟨st', hst', hterm₄, hitems₄⟩ := getSubj_eq opts hsubject hterm₃
  rw [hst'] at h₄
  obtain rfl := Except.ok.inj h₄
  have hresult := (getRes_isOk_iff opts hterm₄).mp ⟨_, h₅⟩
  refine ⟨hsuccess, hexit, hexe, hsubject, hresult, fun hact => ?_⟩
  have hkept : st₅.items.key = s.key := by
    rw [hres, hitems₄, hitems₃, hitems₂]
    exact hsame₁.key
  refine (getKey_iff opts hact hat.ahead).mp ⟨st, hkey, ?_⟩
  rw [hkept]
  exact hright.key hact

theorem extracts_of_undisturbed (hc : Undisturbed opts r) : Extracts opts interp lookupUid r s := by
  obtain ⟨args, hargs, hat, hsame⟩ := reaches_parseArguments (s := s) opts interp hc.success hc.exit
  have hids : Reaches r s 26 (parseIds opts lookupUid { args with term := r.message }) :=
    reaches_parseIds opts lookupUid hsame (at_message r)
  obtain ⟨st₁, h₁, hat₁, hsame₁⟩ := hids
  obtain ⟨st₂, h₂, hterm₂, hitems₂⟩ := getComm_eq opts hat₁.ahead
  obtain ⟨st₃, h₃, hterm₃, hitems₃⟩ := getExe_eq opts hc.exe hterm₂
  obtain ⟨st₄, h₄, hterm₄, hitems₄⟩ := getSubj_eq opts hc.subject hterm₃
  obtain ⟨st₅, h₅⟩ := (getRes_isOk_iff opts hterm₄).mpr hc.result
  have htask : parseTaskInfo opts lookupUid r.message args = .ok st₅ := by
    rw [parseTaskInfo, h₁]
    show (getComm opts st₁ >>= _) = _
    rw [h₂]
    show (getExe opts r.message _ >>= _) = _
    rw [h₃]
    show (getSubj opts _ >>= _) = _
    rw [h₄]
    exact h₅
  have hparse : parseSyscall opts interp lookupUid r.message s = getKey opts args.term st₅ := by
    rw [parseSyscall, hargs]
    show (parseTaskInfo opts lookupUid r.message args >>= _) = _
    rw [htask]
    rfl
  have hitems : st₄.items = { st₁.items with
      comm := if opts.comm.isSome then some r.comm.bytes else st₁.items.comm
      exe := if opts.exe.isSome then some (decoded r.exe) else st₁.items.exe
      avc := if opts.subject.isSome then r.withSubject st₁.items.avc else st₁.items.avc } := by
    rw [hitems₄, hitems₃, hitems₂]
  obtain ⟨_, hres⟩ := getRes_items h₅
  have hkey₅ : st₅.items.key = s.key := by
    rw [hres, hitems]
    exact hsame₁.key
  obtain ⟨st, hkey, hkeys⟩ : ∃ st, getKey opts args.term st₅ = .ok st ∧
      (opts.key.isSome = true →
        st.items.key = some (s.key.getD [] ++ (keysOf r.key).map some)) := by
    cases hact : opts.key.isSome with
    | false =>
      refine ⟨st₅, ?_, nofun⟩
      rw [getKey, hact]
      rfl
    | true =>
      obtain ⟨st, hst, hkeys⟩ := (getKey_iff opts hact hat.ahead).mpr (hc.key hact)
      rw [hkey₅] at hkeys
      exact ⟨st, hst, fun _ => hkeys⟩
  obtain ⟨_, hlast⟩ := getKey_items hkey
  refine ⟨st, hparse.trans hkey, ⟨fun hact => ?_, fun hact => ?_, fun hact => ?_, hkeys⟩⟩
  · rw [hlast, hres, hitems]
    exact if_pos hact
  · rw [hlast, hres, hitems]
    exact if_pos hact
  · rw [hlast, hres, hitems]
    exact (if_pos hact).trans (congrArg r.withSubject hsame₁.avc)

variable (opts interp lookupUid r s)

/-- **The values of a record are extracted unless other values of it disturb that.**  This is so for all
options, whatever was extracted from other records of the event. -/
theorem extracts_iff : Extracts opts interp lookupUid r s ↔ Undisturbed opts r :=
  ⟨undisturbed_of_extracts, extracts_of_undisturbed⟩

end Record

/-- What is known before the first record. -/
def noItems : SearchItems :=
  ⟨-1, -1, 0xFFFFFFFF, 0xFFFFFFFF, 0xFFFFFFFE, 0xFFFFFFFF, 0xFFFFFFFF, -1, 0, 0, 0xFFFFFFFE, 0, false,
    none, none, none, none, none, none, none, none, none, none, none, none, none⟩

/-- A shell, run under the name `comm`. -/
def shellRecord (comm : CString) : SyscallRecord where
  hasNode := false
  hasPer := false
  returned := true
  value _ := ascii "0"
  clean _ := by decide +kernel
  converts n := by cases n <;> first | exact trivial | rfl
  comm := comm
  exe := some ⟨ascii "/bin/sh", by decide⟩
  subj := none
  key := some ⟨ascii "shell", by decide⟩

/-- The event of its record. -/
def shellEvent (comm : CString) : SearchEvent where
  sec := 0
  serial := 0
  node := none
  types := [1300]
  items opts := (parseSyscall opts false (fun _ _ => none) (shellRecord comm).message noItems).toOption.map
    Scan.items

/-- A search for a subject, and a command. -/
def evilSubject : Options := { subject := some (ascii "evil"), comm := some (ascii "evil") }

/-- A subject is found in the name of the command, unless the command is searched for as well.  No option
is ignored, but what is found for the one depends on the other. -/
theorem subject_of_comm :
    matchEvent evilSubject (shellEvent ⟨ascii "subj=evil", by decide⟩) = some false ∧
      matchEvent (evilSubject.only .subject) (shellEvent ⟨ascii "subj=evil", by decide⟩) = some true ∧
      matchEvent (evilSubject.only .comm) (shellEvent ⟨ascii "subj=evil", by decide⟩) = some true := by
  decide +kernel

/-- The keys that a search for keys extracts from its record. -/
def shellKeys (comm : CString) : Option (List (Option Bytes)) :=
  match parseSyscall { key := some (ascii "shell") } false (fun _ _ => none) (shellRecord comm).message
    noItems with
  | .error _ => none
  | .ok st => st.items.key

/-- The name of the command decides about the keys: the event of the second shell is not found. -/
theorem keys_of_comm : shellKeys ⟨ascii "sh", by decide⟩ = some [some (ascii "shell")] ∧
      shellKeys ⟨ascii "key=(x)", by decide⟩ = some [some (ascii "(x)")] := by
  decide +kernel

end LibAudit.Search
