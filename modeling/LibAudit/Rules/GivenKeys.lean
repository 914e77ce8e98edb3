import LibAudit.Rules.Pairs
import LibAudit.Rules.Steps

/-!
# The keys of a rule

Each `-k`, and each `-F key=`, gives a key.  `setopt` collects them in one string, with a byte 1 between
them, and adds that to the rule as its last field.  Whoever reads a record cuts the string there again.

A key that has the byte 1 in it only gets a message, and an empty one nothing at all.  `keysKept_iff`:
exactly the keys without these two defects are found again.  The string is never too long.
-/

namespace LibAudit.Rules

open Getopt Hoare List

/-! ## What is asked for -/

/-- The key that an option gives. -/
def keyOf (ev : Event CtlOpt) : Option Bytes :=
  match ev.opt with
  | some .key => some ev.arg
  | some .field => if (ascii "key=").isPrefixOf ev.arg then some (ev.arg.drop 4) else none
  | _ => none

/-- The keys that a command line gives. -/
def keysGiven (vars : List Bytes) : List Bytes := (getoptLong ctlSpec 1 false vars).1.filterMap keyOf

/-- A word of a command line.  Its length is an `int`. -/
structure Word where
  string : CString
  short : string.strlen < 2 ^ 31

/-- The words behind the name of the program. -/
def vars (argv : List Word) : List Bytes := argv.map (·.string.bytes)

/-- `auditctl` accepts the command line, in the state `g₀`, and then its variables are `g'`. -/
def Accepted (env : Env) (kernel : Kernel) (argv : List Word) (g₀ g' : Ctl) : Prop :=
  ∃ g r, resetVars kernel g₀ = .ok true g ∧ setopt env kernel (vars argv) g = .ok r g' ∧ 0 < r

/-- The string that has been added to the rule last, if it is a key. -/
def keyString (s : Builder) : Option Bytes :=
  match s.made.getLast? with
  | some (.str .filterkey .equal text) => some text
  | _ => none

/-- The key string of the rule holds the keys: they are joined by single separators, the string is not
too long, and cutting it gives the keys. -/
def KeysKept (s : Builder) (ks : List Bytes) : Prop :=
  ∃ text, keyString s = some text ∧ text = [1].intercalate ks ∧ text.length ≤ maxKeyLen ∧
    words 1 text = ks

/-! ## Joining keys -/

/-- A key is put behind those that are there. -/
def joinKey (key k : Bytes) : Bytes := if key = [] then k else key ++ 1 :: k

/-- What `setopt` makes of the keys. -/
def joinKeys (ks : List Bytes) : Bytes := ks.foldl joinKey []

theorem joinKeys_concat (ks : List Bytes) (k : Bytes) :
    joinKeys (ks ++ [k]) = joinKey (joinKeys ks) k := by
  rw [joinKeys, foldl_append]
  rfl

theorem foldl_joinKey {key : Bytes} (hkey : key ≠ []) (ks : List Bytes) :
    ks.foldl joinKey key = key ++ ks.flatMap (1 :: ·) := by
  induction ks generalizing key with
  | nil => exact (append_nil key).symm
  | cons k ks ih =>
    rw [foldl_cons, joinKey, if_neg hkey, ih (by simp), flatMap_cons, append_assoc]

theorem intercalate_cons_eq (k : Bytes) (ks : List Bytes) :
    [1].intercalate (k :: ks) = k ++ ks.flatMap ((1 : UInt8) :: ·) := by
  induction ks generalizing k with
  | nil => simp
  | cons k' ks ih => rw [intercalate_cons_cons, ih, flatMap_cons, append_assoc]; rfl

/-- With a first key that is not empty, the keys are joined by separators. -/
theorem joinKeys_eq {ks : List Bytes} (h : ∀ k ∈ ks, k ≠ []) : joinKeys ks = [1].intercalate ks := by
  cases ks with
  | nil => rfl
  | cons k ks => rw [intercalate_cons_eq, ← foldl_joinKey (h k mem_cons_self)]; rfl

/-! ## The key field -/

/-- What is read from `key=` and a key, if the name is a field at all. -/
theorem splitPair_key {key f v : Bytes} {op : Op} {name : FieldName}
    (h : splitPair (ascii "key=" ++ key) = some (op, f, v)) (hname : auditNameToField f = some name) :
    name = .str .filterkey ∧ op = .equal ∧ v = key := by
  have hf := notMem_opChars_of_name hname
  have heq : ascii "key" ++ 61 :: key = f ++ (op.symbol ++ v) := by
    rw [← append_assoc, ← splitPair_eq h]
    rfl
  -- both sides are cut at the first character of an operator
  have hcut : ascii "key" = f ∧ 61 :: key = op.symbol ++ v := by
    refine append_stop_inj (p := fun c => !opChars.contains c) heq (by decide +kernel) ?_ ?_ ?_
    · exact fun c hc => by simpa using hf c hc
    · rintro c ⟨⟩
      decide
    · obtain ⟨d, rest, hop, hd⟩ := op.symbol_head
      rw [hop]
      rintro c ⟨⟩
      simpa using hd
  obtain ⟨rfl, hop⟩ := hcut
  refine ⟨(Option.some.inj hname).symm, ?_⟩
  cases op with
  | equal => exact ⟨rfl, (List.cons.inj hop).2.symm⟩
  | _ => exact absurd (List.cons.inj hop).1 (by decide)

theorem fieldpair_key {env : Env} {pair : CString} {key : Bytes} {flags : FilterList} {alloc : Alloc}
    {s s' : Builder} (hpair : pair.bytes = ascii "key=" ++ key) (hlen : key.length ≤ maxKeyLen)
    (hinv : Inv s) (h : auditRuleFieldpairData env pair flags alloc s = .ok () s') :
    s'.made = s.made ++ [.str .filterkey .equal key] := by
  have hshort : pair.strlen < 2 ^ 31 := by
    rw [CString.strlen, hpair, length_append]
    exact Nat.lt_of_le_of_lt (Nat.add_le_add_left hlen _) (by decide)
  have hover := ((auditRuleFieldpairData_keeps env hshort flags alloc).of_ok hinv h).1
  cases hr : s.rule with
  | none =>
    have hfails : Triple (· = s) (auditRuleFieldpairData env pair flags alloc) (fun _ _ => False)
        fun _ _ => True := by
      refine .bind (Q := fun _ _ => False) (.bind (Q := fun _ _ => False) ?_
        fun _ _ hs => hs.elim) fun _ _ hs => hs.elim
      refine .get_bind fun s₀ hs₀ => ?_
      rw [hs₀, hr]
      exact .throw _ fun _ _ => trivial
    exact (hfails.of_ok rfl h).elim
  | some r =>
    have hadds := (auditRuleFieldpairData_ends env pair flags alloc hr).of_ok rfl h
    have hmeant : ∀ {name op v}, fieldpairHead env r.fieldCount pair.bytes flags = .ok (name, op, v) →
        name = .str .filterkey ∧ op = .equal ∧ v = key := fun hhead => by
      obtain ⟨-, f, hsplit, hname⟩ := fieldpairHead_ok hhead
      rw [hpair] at hsplit
      exact splitPair_key hsplit hname
    cases hadds with
    | num head _ _ => cases (hmeant head).1
    | str head _ added =>
      obtain ⟨hname, rfl, rfl⟩ := hmeant head
      cases hname
      obtain ⟨r', -, hmade, -⟩ := added hover
      exact hmade

/-! ## What the loop keeps -/

/-- The variables after the keys `ks`. -/
structure KeyState (ks : List Bytes) (g : Ctl) : Prop where
  inv : Inv g.builder
  key : g.key = joinKeys ks
  keylen : g.keylen = maxKeyLen - g.key.length
  fits : g.key.length ≤ maxKeyLen
  nulFree : 0 ∉ g.key
  unlisted : g.listRequested = false

theorem KeyState.quiet {ks : List Bytes} {g g' : Ctl} (h : KeyState ks g) (hq : Quiet g g') :
    KeyState ks g' where
  inv := hq.inv h.inv
  key := hq.key.trans h.key
  keylen := by rw [hq.keylen, hq.key, h.keylen]
  fits := hq.key ▸ h.fits
  nulFree := hq.key ▸ h.nulFree
  unlisted := hq.listRequested.trans h.unlisted

/-- The loop can go on only with the keys `ks'`. -/
def Collects (ks ks' : List Bytes) (m : CtlM Int) : Prop :=
  Triple (KeyState ks) m (fun r g => 0 ≤ r → KeyState ks' g) fun _ _ => True

/-- The loop cannot go on. -/
def Ends (m : CtlM Int) : Prop := Triple (fun _ => True) m (fun r _ => r < 0) fun _ _ => True

variable {ks : List Bytes}

theorem Ends.collects {m : CtlM Int} (h : Ends m) (ks' : List Bytes) : Collects ks ks' m :=
  h.conseq (fun _ _ => trivial) (fun _ _ hr hnonneg => absurd hnonneg (Int.not_le.mpr hr)) fun _ _ => id

theorem Ends.pure {r : Int} (h : r < 0) : Ends (Pure.pure r) := Triple.pure r fun _ _ => h

theorem Ends.bind {α : Type} (m : CtlM α) {f : α → CtlM Int} (hf : ∀ a, Ends (f a)) :
    Ends (m >>= f) := by
  refine Triple.bind (Q := fun _ _ => True) (fun g _ => ?_) hf
  cases m g <;> trivial

theorem Ends.ite {c : Prop} [Decidable c] {m m' : CtlM Int} (h : Ends m) (h' : Ends m') :
    Ends (if c then m else m') := Triple.ite (fun _ => h) fun _ => h'

/-- A quiet option adds no key. -/
theorem collects_of_built {m : CtlM Int} (h : Built true m) : Collects ks ks m := by
  intro g hg
  have := h.leaves g g (Quiet.refl g)
  cases hm : m g with
  | ok r g' =>
    rw [hm] at this
    exact fun _ => hg.quiet this
  | error e g' => trivial

theorem listRules_ends (kernel : Kernel) : Ends (listRules kernel) :=
  .bind _ fun _ => .ite (.pure (by decide)) (.pure (by decide))

theorem listRulesOption_ends (kernel : Kernel) (next : Option Bytes) (third : Bytes) :
    Ends (listRulesOption kernel next third) := by
  have hfail : Ends (Pure.pure (-1)) := .pure (by decide)
  have hlist := listRules_ends kernel
  exact .bind _ fun _ => .ite hfail (.ite (.ite (.bind _ fun _ => hlist) hfail)
    (.ite (.ite (.bind _ fun _ => hlist) hfail) hlist))

theorem deleteAllOption_ends (kernel : Kernel) (next : Option Bytes) (third : Bytes) :
    Ends (deleteAllOption kernel next third) := by
  have hfail : Ends (Pure.pure (-1)) := .pure (by decide)
  have hdelete : Ends (deleteAllRules kernel) := .bind _ fun _ => .bind _ fun _ =>
    .ite (.bind _ fun _ => .bind _ fun _ => .pure (by decide)) hfail
  exact .bind _ fun _ => .ite hfail (.ite (.ite (.bind _ fun _ => hdelete) hfail) hdelete)

/-- **A key that is accepted is put behind those that are there.** -/
theorem KeyState.catKey {g : Ctl} (h : KeyState ks g) {arg : Bytes} (harg : 0 ∉ arg)
    (hfits : arg.length + g.key.length + (if g.key = [] then 0 else 1) ≤ maxKeyLen) :
    KeyState (ks ++ [arg]) (g.catKey arg) := by
  have hkey : (g.catKey arg).key = joinKey g.key arg := by
    rw [Ctl.catKey, joinKey]
    split at hfits
    · rename_i hnil
      rw [if_pos hnil, if_pos hnil, h.keylen, take_of_length_le (by omega), hnil]
      rfl
    · rename_i hne
      rw [if_neg hne, if_neg hne]
      simp only [h.keylen]
      rw [take_of_length_le (by omega), append_assoc]
      rfl
  have hlen : (joinKey g.key arg).length ≤ maxKeyLen := by
    rw [joinKey]
    grind
  refine ⟨?_, ?_, rfl, hkey ▸ hlen, ?_, ?_⟩
  · rw [Ctl.catKey]
    split <;> exact h.inv
  · rw [hkey, h.key, joinKeys_concat]
  · rw [hkey, joinKey]
    split
    · exact harg
    · simpa [h.nulFree] using harg
  · rw [Ctl.catKey]
    split <;> exact h.unlisted

theorem processKeys_collects (retval : Int) {arg : Bytes} (harg : 0 ∉ arg) :
    Collects ks (ks ++ [arg]) (processKeys retval arg) := by
  refine .get_bind fun g hg => .ite (fun _ => ?_) fun hfits => ?_
  · exact .pure _ fun _ _ hneg => absurd hneg (by decide)
  · refine .bind (Q := fun _ => KeyState (ks ++ [arg])) (.modify ?_) fun _ =>
      .pure _ fun _ hg' _ => hg'
    rintro _ rfl
    exact hg.catKey harg (Nat.not_lt.mp hfits)

theorem keyOf_eq_none {ev : Event CtlOpt} (h : loudOption ev = false) : keyOf ev = none := by
  obtain ⟨opt, arg, optind⟩ := ev
  rcases opt with _ | opt
  · rfl
  cases opt with
  | key => cases h
  | field => exact if_neg (Bool.eq_false_iff.mp h)
  | _ => rfl

/-- Every option adds its key. -/
theorem option_collects (env : Env) (kernel : Kernel) (vars : List Bytes) (retval : Int)
    {ev : Event CtlOpt} (hnul : 0 ∉ ev.arg) (hshort : ev.arg.length < 2 ^ 31) :
    Collects ks (ks ++ (keyOf ev).toList) (option env kernel vars retval ev) := by
  cases hloud : loudOption ev with
  | false =>
    rw [keyOf_eq_none hloud, Option.toList_none, append_nil]
    exact collects_of_built (option_built kernel env vars retval ev fun _ => ⟨hloud, hshort⟩)
  | true =>
    have hfail : Triple (KeyState ks) (Pure.pure (-1) : CtlM Int)
        (fun r g => 0 ≤ r → KeyState (ks ++ (keyOf ev).toList) g) fun _ _ => True :=
      (Ends.pure (by decide)).collects _
    obtain ⟨opt, arg, optind⟩ := ev
    rcases opt with _ | opt
    · cases hloud
    cases opt with
    | list => exact (listRulesOption_ends kernel _ _).collects _
    | deleteAll => exact (deleteAllOption_ends kernel _ _).collects _
    | key =>
      exact .read fun g _ => .ite (fun _ => hfail) fun _ => processKeys_collects retval hnul
    | field =>
      have hkey : keyOf ⟨some .field, arg, optind⟩ = some (arg.drop 4) := if_pos hloud
      rw [hkey] at hfail ⊢
      refine .read fun g _ => .ite (fun _ => hfail) fun _ => .ite (fun _ => ?_) fun h => absurd hloud h
      exact processKeys_collects retval fun hmem => hnul (mem_of_mem_drop hmem)
    | _ => cases hloud

/-- **Every option of a run that goes on to its end adds its key.** -/
theorem optionLoop_collects (env : Env) (kernel : Kernel) (vars : List Bytes) (last : Nat) {retval : Int}
    {evs : List (Event CtlOpt)}
    (hargs : ∀ ev ∈ evs, 0 ∉ ev.arg ∧ ev.arg.length < 2 ^ 31) :
    Triple (KeyState ks) (optionLoop env kernel vars last retval evs)
      (fun r g => 0 ≤ r.1 → KeyState (ks ++ evs.filterMap keyOf) g) fun _ _ => True := by
  induction evs generalizing ks retval with
  | nil =>
    rw [filterMap_nil, append_nil]
    exact .pure _ fun _ hg _ => hg
  | cons ev evs ih =>
    have hev := hargs ev mem_cons_self
    refine .bind (option_collects env kernel vars retval hev.1 hev.2) fun r =>
      .ite (fun hneg => ?_) fun hnonneg => ?_
    · exact .pure _ fun _ _ hr => absurd hr (Int.not_le.mpr hneg)
    · have htail : Triple (KeyState (ks ++ (keyOf ev).toList)) (optionLoop env kernel vars last r evs)
          (fun r g => 0 ≤ r.1 → KeyState (ks ++ (keyOf ev).toList ++ evs.filterMap keyOf) g)
          fun _ _ => True := ih fun ev' hev' => hargs ev' (mem_cons_of_mem ev hev')
      have heq : ks ++ (keyOf ev).toList ++ evs.filterMap keyOf = ks ++ (ev :: evs).filterMap keyOf := by
        cases hkey : keyOf ev <;> simp [hkey]
      rw [heq] at htail
      exact htail.pre fun g hg => hg (Int.not_lt.mp hnonneg)

/-- The string of the keys is in the rule. -/
def KeyAdded (ks : List Bytes) (g : Ctl) : Prop :=
  joinKeys ks ≠ [] → keyString g.builder = some (joinKeys ks) ∧ (joinKeys ks).length ≤ maxKeyLen

theorem addKey_spec (env : Env) (retval : Int) :
    Triple (fun g => 0 < retval → KeyState ks g) (addKey env retval)
      (fun r g => 0 < r → KeyAdded ks g) fun _ _ => True := by
  refine .get_bind fun g hg => .ite (fun hkey => ?_) fun hkey => ?_
  · refine .bind (Q := fun ok g' => ok = true → 0 < retval → KeyAdded ks g')
      (call_ends (fun b hb _ hpos hne => ?_) fun _ _ _ h => by cases h) fun ok =>
      .ite (fun hok => .pure _ fun _ hg' => hg' hok) fun _ =>
        .pure _ fun _ _ hneg => absurd hneg (by decide)
    have hstate := hg hpos
    have hpair : (cstr (ascii "key=" ++ g.key)).bytes = ascii "key=" ++ g.key := by
      refine untilNul_of_notMem fun hmem => ?_
      rcases mem_append.mp hmem with h | h
      · exact absurd h (by decide)
      · exact hstate.nulFree h
    have hmade := fieldpair_key hpair hstate.fits hstate.inv hb
    refine ⟨?_, hstate.key ▸ hstate.fits⟩
    rw [keyString, hmade, List.getLast?_concat, hstate.key]
  · refine .pure _ ?_
    rintro _ rfl hpos hne
    have hstate := hg hpos
    exact absurd ⟨hstate.key ▸ hne, hstate.unlisted⟩ hkey

theorem leftOver_pos {retval : Int} {optind count : Nat} (h : 0 < leftOver retval optind count) :
    leftOver retval optind count = retval := by
  rw [leftOver] at h ⊢
  omega

variable {argv : List Word} {kernel : Kernel}

theorem args_of_vars : ∀ ev ∈ (getoptLong ctlSpec 1 false (vars argv)).1,
    0 ∉ ev.arg ∧ ev.arg.length < 2 ^ 31 := by
  intro ev hev
  obtain ⟨w, hw, hsub⟩ := sublist_of_mem_getoptLong ev hev
  obtain ⟨word, -, rfl⟩ := mem_map.mp hw
  exact ⟨fun hmem => word.string.nulFree (hsub.subset hmem), Nat.lt_of_le_of_lt hsub.length_le word.short⟩

theorem resetVars_start {g₀ g : Ctl} {ok : Bool} (h : resetVars kernel g₀ = .ok ok g) :
    Inv g.builder ∧ g.listRequested = false := by
  have hspec : Triple (fun _ => True) (resetVars kernel)
      (fun _ g => Inv g.builder ∧ g.listRequested = false) fun _ _ => True := by
    refine .bind (Q := fun _ g => Inv g.builder ∧ g.listRequested = false)
      (.modify fun _ _ => ⟨start_inv _ _, rfl⟩) fun _ => .read fun _ _ => ?_
    refine .ite (fun _ => .pure _ fun _ => id) fun _ => .ite (fun _ => ?_) fun _ => .pure _ fun _ => id
    exact .bind (.modify fun _ hg => hg) fun _ => .pure _ fun _ => id
  exact hspec.of_ok trivial h

/-- **The keys that are given are in the rule.** -/
theorem setopt_keyAdded {env : Env} {g₀ g g' : Ctl} {r : Int}
    (hreset : resetVars kernel g₀ = .ok true g) (hset : setopt env kernel (vars argv) g = .ok r g')
    (hr : 0 < r) : KeyAdded (keysGiven (vars argv)) g' := by
  have hstart : Inv g.builder ∧ g.listRequested = false := resetVars_start hreset
  have hspec : Triple (· = g) (setopt env kernel (vars argv))
      (fun r g => 0 < r → KeyAdded (keysGiven (vars argv)) g) fun _ _ => True := by
    refine .bind (Q := fun _ => KeyState []) (.modify ?_) fun _ => ?_
    · rintro _ rfl
      exact ⟨hstart.1, rfl, rfl, Nat.zero_le _, not_mem_nil, hstart.2⟩
    · refine .bind (optionLoop_collects env kernel (vars argv) _ args_of_vars) fun res =>
        .read fun g₁ _ => (addKey_spec env _).pre fun g₂ hg₂ hpos => ?_
      rw [leftOver_pos hpos] at hpos
      exact hg₂ (Int.le_of_lt hpos)
  exact hspec.of_ok rfl hset hr

theorem KeysKept.sound {s : Builder} (h : KeysKept s ks) : ∀ k ∈ ks, k ≠ [] ∧ 1 ∉ k := by
  obtain ⟨text, -, -, -, hwords⟩ := h
  intro k hk
  rw [← hwords] at hk
  exact ⟨(of_mem_words hk).1, notMem_of_mem_words hk⟩

/-- **Which keys are found again.**  For every command line that is accepted and gives keys: exactly if
none of them is empty or has the separator in it. -/
theorem keysKept_iff (env : Env) (kernel : Kernel) (argv : List Word) {g₀ g' : Ctl}
    (h : Accepted env kernel argv g₀ g') (hks : keysGiven (vars argv) ≠ []) :
    KeysKept g'.builder (keysGiven (vars argv)) ↔
      ∀ k ∈ keysGiven (vars argv), k ≠ [] ∧ 1 ∉ k := by
  refine ⟨KeysKept.sound, fun hsound => ?_⟩
  obtain ⟨g, r, hreset, hset, hr⟩ := h
  have hjoin := joinKeys_eq fun k hk => (hsound k hk).1
  have hne : joinKeys (keysGiven (vars argv)) ≠ [] := by
    obtain ⟨k, ks, hcons⟩ := exists_cons_of_ne_nil hks
    rw [hjoin, hcons, intercalate_cons_eq]
    exact append_ne_nil_of_left_ne_nil (hsound k (hcons ▸ mem_cons_self)).1 _
  obtain ⟨hstring, hlen⟩ := setopt_keyAdded hreset hset hr hne
  exact ⟨_, hstring, hjoin, hlen, by rw [hjoin, words_intercalate hsound]⟩

/-! ### Two command lines -/

/-- A kernel that agrees to everything. -/
def agreeable : Kernel := ⟨true, fun _ => 1, false⟩

/-- The variables when the program starts. -/
def Ctl.initial : Ctl where
  builder := start Given.none false
  add := none
  prepend := false
  del := none
  action := none
  exclude := false
  multiple := 0
  key := []
  keylen := 0
  listRequested := false
  interpret := false
  ignore := false
  continueError := false
  fd := false
  count := 0
  sent := []

/-- Whether a command line is accepted can be found out. -/
def accepts (env : Env) (kernel : Kernel) (argv : List Word) (g₀ : Ctl) : Bool :=
  match resetVars kernel g₀ with
  | .ok true g =>
    match setopt env kernel (vars argv) g with
    | .ok r _ => decide (0 < r)
    | .error _ _ => false
  | _ => false

theorem exists_accepted {env : Env} {g₀ : Ctl}
    (h : accepts env kernel argv g₀ = true) : ∃ g', Accepted env kernel argv g₀ g' := by
  rw [accepts] at h
  split at h
  · rename_i g hreset
    split at h
    · rename_i r g' hset
      exact ⟨g', g, r, hreset, hset, of_decide_eq_true h⟩
    · cases h
  · cases h

theorem strlen_cstr_take_lt (s : Bytes) : (cstr (s.take pathMax)).strlen < 2 ^ 31 :=
  Nat.lt_of_le_of_lt ((List.takeWhile_prefix _).length_le.trans (length_take_le _ _)) (by decide)

/-- A word that is not too long. -/
def Word.of (s : Bytes) : Word := ⟨cstr (s.take pathMax), strlen_cstr_take_lt s⟩

/-- `-w /etc/passwd -k a -k b`. -/
def twoKeys : List Word := [ascii "-w", ascii "/etc/passwd", ascii "-k", ascii "a", ascii "-k",
  ascii "b"].map Word.of

theorem keysKept_two : ∃ g', Accepted namelessEnv agreeable twoKeys Ctl.initial g' ∧
    KeysKept g'.builder [ascii "a", ascii "b"] := by
  obtain ⟨g', h⟩ := exists_accepted (show accepts namelessEnv agreeable twoKeys Ctl.initial = true by
    decide +kernel)
  have hks : keysGiven (vars twoKeys) = [ascii "a", ascii "b"] := by decide +kernel
  have hkept := (keysKept_iff namelessEnv agreeable twoKeys h (by rw [hks]; decide)).mpr
  rw [hks] at hkept
  exact ⟨g', h, hkept (by decide)⟩

/-- The same with one key that is `a`, a separator and `b`. -/
def joinedKey : List Word :=
  [ascii "-w", ascii "/etc/passwd", ascii "-k", [97, 1, 98]].map Word.of

/-- This key is accepted, but it is found as two. -/
theorem not_keysKept_separator : ∃ g', Accepted namelessEnv agreeable joinedKey Ctl.initial g' ∧
    keysGiven (vars joinedKey) = [[97, 1, 98]] ∧ ¬ KeysKept g'.builder [[97, 1, 98]] := by
  obtain ⟨g', h⟩ := exists_accepted (show accepts namelessEnv agreeable joinedKey Ctl.initial = true by
    decide +kernel)
  refine ⟨g', h, by decide +kernel, fun hkept => ?_⟩
  exact (hkept.sound [97, 1, 98] mem_cons_self).2 (by decide)

end LibAudit.Rules
