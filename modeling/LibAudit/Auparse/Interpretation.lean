import LibAudit.Auparse.Escape
import LibAudit.Auparse.Interpret

/-!
# What an application gets: `auparse_interpret_field` and `auparse_interpret_realpath`

An interpretation is taken from the list that came with the record, or computed by the printer for the
type of the field and then escaped.  It is kept with the field, and later requests return what is kept.

Two things follow.  The escape mode only has an effect on what is computed: a text of the list is
returned as it stands in the log, so in the mode for terminals it may hold control characters
(`interpretField_clean_iff`).  And the first request for a field decides what all the later ones
return, also when the mode has been changed or the other function is called (`answers_eq_iff`).

The printers of types that matter in none of this are parameters, and so are `realpath` and the memory
that `malloc` returns.
-/

namespace LibAudit.Auparse

open Logging List Option

/-! ## Printing -/

/-- `auparse_type_t`: the types that the daemon enriches, those that are treated in a way of their own, the
ones that are copied, and the others by their numbers. -/
inductive FieldType where
  | enriched (kind : Kind)
  | escaped | escapedFile | escapedKey | unclassified
  | other (number : Nat)
  deriving DecidableEq

/-- A user or a group. -/
def FieldType.isId : FieldType → Bool
  | enriched kind => kind.isId
  | _ => false

/-- `idata`. -/
structure FieldData extends Idata where
  a1 : UInt64
  cwd : Option Bytes
  name : Bytes

/-- What the interpretation of a field depends on outside of its event. -/
structure World where
  lookups : Lookups
  /-- The printers of the other types; `none` is NULL. -/
  print : Nat → FieldData → Option CString
  /-- `realpath`. -/
  realpath : Bytes → Option Bytes
  /-- What is in the block that `malloc` returns. -/
  malloc : Nat → Option Bytes
  length_malloc : ∀ n block, malloc n = some block → block.length = n
  /-- Whether a `char` has a sign. -/
  sign : CharSign

/-- `print_escaped_ext`. -/
def printEscapedExt (W : World) (id : FieldData) : Bytes :=
  match id.cwd with
  | none => printEscaped id.val
  | some cwd =>
    let str2 := printEscaped id.val
    if str2.head? ≠ some 47 then
      let str3 := printEscaped cwd ++ 47 :: str2
      (W.realpath str3).getD str3
    else if ascii ".." <:+: str2 then (W.realpath str2).getD str2
    else str2

/-- The `switch` of `auparse_do_interpretation`. -/
def printOut (W : World) (id : FieldData) : FieldType → Option CString
  | .enriched kind => some (cstr (printField W.lookups kind id.toIdata))
  | .escaped | .escapedFile => some (cstr (printEscapedExt W id))
  | .escapedKey => some (cstr (printEscaped id.val))
  | .unclassified => some (cstr id.val)
  | .other number => W.print number id

/-! ## Escaping -/

/-- What a function that returns a string does: NULL, a block of memory, or a write outside of one. -/
inductive Outcome where
  | null
  | block (bytes : Bytes)
  | outside
  deriving DecidableEq

/-- The pointer that is returned. -/
def Outcome.pointer : Outcome → Option Bytes
  | block bytes => some bytes
  | null | outside => none

/-- What is written into a block that was asked for. -/
def Outcome.ofMalloc (dest : Option Bytes) (write : Bytes → Option Bytes) : Outcome :=
  match dest with
  | none => null
  | some dest => (write dest).elim outside block

/-- How much is to be escaped in each of several keys. -/
def needEscapingKeys (sign : CharSign) (mode : Esc) (out : Bytes) : Nat :=
  ((out.splitOn keySeparator).map fun key => mode.needEscaping sign key).sum

/-- The end of `auparse_do_interpretation`. -/
def escapeOut (W : World) (mode : Esc) (type : FieldType) (out : CString) : Outcome :=
  if mode = .raw then .block out.withNul
  else if type = .escapedKey ∧ keySeparator ∈ out.bytes then
    let cnt := needEscapingKeys W.sign mode out.bytes
    if cnt = 0 then .block out.withNul
    else .ofMalloc (W.malloc (out.strlen + 1 + 3 * cnt)) (keyEscape W.sign mode out.bytes)
  else
    let cnt := mode.needEscaping W.sign out.bytes
    if cnt = 0 then .block out.withNul
    else .ofMalloc (W.malloc (out.strlen + 1 + 3 * cnt)) fun dest => mode.escape out.bytes dest 0

/-- What the list says of a field.  Something the daemon did not know is tried again. -/
def listed (il : List (Bytes × Bytes)) (name : Bytes) : Option Bytes :=
  ((il.find? (·.1 == name)).map (·.2)).filter fun val => !(ascii "unknown-").isPrefixOf val

/-- The text for a value of the list. -/
def listedText (type : FieldType) (val : Bytes) : CString :=
  cstr (if type.isId then printEscaped val else val)

/-- `auparse_do_interpretation`. -/
def auparseDoInterpretation (W : World) (il : List (Bytes × Bytes)) (type : FieldType) (id : FieldData)
    (mode : Esc) : Outcome :=
  match listed il id.name with
  | some val => .block (listedText type val).withNul
  | none => (printOut W id type).elim .null (escapeOut W mode type)

/-! ## Requests -/

/-- The current field, its record and its event. -/
structure Current where
  /-- `e.sec`. -/
  sec : Nat
  /-- `le->cwd`. -/
  cwd : Option Bytes
  /-- `r->interp`. -/
  interp : Option Bytes
  /-- What `auparse_interp_adjust_type` says of the field. -/
  type : FieldType
  machine : Option Nat
  syscall : Int32
  a0 : UInt64
  a1 : UInt64
  name : Bytes
  val : Bytes

/-- The data for the interpretation. -/
def Current.data (c : Current) (cwd : Option Bytes) : FieldData where
  machine := c.machine
  syscall := c.syscall
  a0 := c.a0
  a1 := c.a1
  cwd := cwd
  name := c.name
  val := c.val

@[simp] theorem Current.data_name (c : Current) (cwd : Option Bytes) : (c.data cwd).name = c.name := rfl

/-- The escape mode, and `interp_val` of the field. -/
structure InterpState where
  mode : Esc
  interpVal : Option Bytes

/-- `interpret`. -/
def interpret (W : World) (c : Current) (cwd : Option Bytes) (s : InterpState) : Outcome × InterpState :=
  let out := auparseDoInterpretation W (loadInterpretationList c.interp) c.type (c.data cwd) s.mode
  (out, { s with interpVal := out.pointer })

/-- `nvlist_interp_cur_val`. -/
def nvlistInterpCurVal (W : World) (c : Current) (cwd : Option Bytes) (s : InterpState) :
    Outcome × InterpState :=
  match s.interpVal with
  | some bytes => (.block bytes, s)
  | none => interpret W c cwd s

/-- `auparse_interpret_field`. -/
def interpretField (W : World) (c : Current) (s : InterpState) : Outcome × InterpState :=
  if c.sec = 0 then (.null, s) else nvlistInterpCurVal W c none s

/-- `auparse_interpret_realpath`. -/
def interpretRealpath (W : World) (c : Current) (s : InterpState) : Outcome × InterpState :=
  if c.sec = 0 then (.null, s)
  else if c.type ≠ .escapedFile then (.null, s)
  else nvlistInterpCurVal W c c.cwd s

/-! ## No write leaves its block -/

theorem escapedCount_le_needEscapingKeys (sign : CharSign) (mode : Esc) (s : Bytes) :
    mode.escapedCount s ≤ needEscapingKeys sign mode s := by
  induction s using pieces_induction keySeparator with
  | last key h =>
    rw [Esc.escapedCount_of_notMem h, needEscapingKeys, splitOn_eq_singleton h]
    simpa using Esc.countP_escapes_le sign mode key
  | cons key s h ih =>
    have hkey := Esc.countP_escapes_le sign mode key
    rw [needEscapingKeys] at ih
    rw [Esc.escapedCount_append_cons, Esc.escapedCount_of_notMem h, needEscapingKeys,
      splitOn_append_cons_self, splitOn_eq_singleton h, singleton_append, map_cons,
      sum_cons]
    omega

section

variable {W : World} {mode : Esc} {type : FieldType} {out : CString} {dest : Bytes}

/-- Several keys, when something in them is escaped. -/
theorem keyEscape_malloc
    (hdest : W.malloc (out.strlen + 1 + 3 * needEscapingKeys W.sign mode out.bytes) = some dest) :
    keyEscape W.sign mode out.bytes dest = some (filled mode out.bytes dest) := by
  refine keyEscape_eq out.nulFree ?_
  have hlen := W.length_malloc _ _ hdest
  have hjoined := mode.length_joined_le out.bytes
  have hcount := escapedCount_le_needEscapingKeys W.sign mode out.bytes
  rw [CString.strlen] at hlen
  omega

theorem escape_malloc (hmode : mode ≠ .raw)
    (hdest : W.malloc (out.strlen + 1 + 3 * mode.needEscaping W.sign out.bytes) = some dest) :
    mode.escape out.bytes dest 0 =
      some (mode.escaped out.bytes ++ 0 :: dest.drop ((mode.escaped out.bytes).length + 1)) := by
  have hlen := W.length_malloc _ _ hdest
  have hescaped := mode.length_escaped_le out.bytes
  have hcount := mode.countP_escapes_le W.sign out.bytes
  rw [CString.strlen] at hlen
  have hroom : (mode.escaped out.bytes ++ [0]).length ≤ dest.length := by
    simp only [length_append, length_singleton]
    omega
  have hstore := Memory.store_append [] hroom
  rw [Esc.escape_eq hmode]
  simpa using hstore

end

/-! ## Control characters -/

/-- No byte is a control character, apart from the separator if there may be several keys. -/
def ControlFree (keys : Bool) (text : Bytes) : Prop := ∀ b ∈ text, 32 ≤ b ∨ keys = true ∧ b = keySeparator

/-- The block holds a string, without control characters. -/
def CleanBlock (keys : Bool) (block : Bytes) : Prop := 0 ∈ block ∧ ControlFree keys (untilNul block)

/-- What is returned is NULL or such a block. -/
def Outcome.Clean (keys : Bool) : Outcome → Prop
  | null => True
  | block bytes => CleanBlock keys bytes
  | outside => False

instance (keys : Bool) (text : Bytes) : Decidable (ControlFree keys text) :=
  inferInstanceAs (Decidable (∀ b ∈ text, _))

instance (keys : Bool) (block : Bytes) : Decidable (CleanBlock keys block) :=
  inferInstanceAs (Decidable (_ ∧ _))

theorem controlFree_append {keys : Bool} {a b : Bytes} :
    ControlFree keys (a ++ b) ↔ ControlFree keys a ∧ ControlFree keys b := forall_mem_append

/-- A string in front of what is in the block. -/
theorem cleanBlock_append {keys : Bool} {text : Bytes} (hnul : 0 ∉ text)
    (htext : ControlFree keys text) (block : Bytes) :
    CleanBlock keys (text ++ block) ↔ CleanBlock keys block := by
  have huntil : untilNul (text ++ block) = text ++ untilNul block := by
    refine takeWhile_append_of_pos fun b hb => ?_
    simpa using fun he : b = 0 => hnul (he ▸ hb)
  rw [CleanBlock, CleanBlock, huntil, controlFree_append, mem_append, or_iff_right hnul,
    and_iff_right htext]

theorem cleanBlock_zero_cons (keys : Bool) (rest : Bytes) : CleanBlock keys (0 :: rest) :=
  ⟨mem_cons_self, fun _ hb => nomatch hb⟩

theorem cleanBlock_withNul (keys : Bool) (s : CString) :
    CleanBlock keys s.withNul ↔ ControlFree keys s.bytes := by
  have huntil : untilNul s.withNul = s.bytes := by
    rw [CString.withNul, untilNul_append_nul s.nulFree]
  rw [CleanBlock, huntil, and_iff_right]
  simp [CString.withNul]

theorem controlFree_escaped (keys : Bool) (s : Bytes) : ControlFree keys (Esc.tty.escaped s) := by
  intro c hc
  obtain ⟨b, -, hc⟩ := mem_flatMap.mp hc
  exact .inl (Esc.le_of_mem_encode_tty hc)

theorem controlFree_joined (s : Bytes) : ControlFree true (Esc.tty.joined s) := by
  induction s using pieces_induction keySeparator with
  | last key h =>
    rw [Esc.joined_of_notMem h]
    exact controlFree_escaped true key
  | cons key s h ih =>
    rw [Esc.joined_append_cons h, controlFree_append]
    exact ⟨controlFree_escaped true key, forall_mem_cons.mpr ⟨.inr ⟨rfl, rfl⟩, ih⟩⟩

theorem joined_eq_self {sign : CharSign} {mode : Esc} {s : Bytes}
    (h : needEscapingKeys sign mode s = 0) : mode.joined s = s := by
  induction s using pieces_induction keySeparator with
  | last key hkey =>
    rw [needEscapingKeys, splitOn_eq_singleton hkey] at h
    rw [Esc.joined_of_notMem hkey]
    exact Esc.escaped_eq_self (by simpa using h)
  | cons key s hkey ih =>
    rw [needEscapingKeys, splitOn_append_cons_self, splitOn_eq_singleton hkey,
      singleton_append, map_cons, sum_cons, Nat.add_eq_zero_iff] at h
    rw [Esc.joined_append_cons hkey, Esc.escaped_eq_self h.1, ih h.2]

/-! ## What is computed -/

section

variable {W : World} {type : FieldType} {out : CString}

/-- Several keys with something to be escaped, and a separator at the end: the text is not terminated. -/
structure Unfinished (W : World) (type : FieldType) (out : CString) (dest : Bytes) : Prop where
  isKey : type = .escapedKey
  several : keySeparator ∈ out.bytes
  separator : ¬ EndsInKey out.bytes
  needs : needEscapingKeys W.sign .tty out.bytes ≠ 0
  malloc : W.malloc (out.strlen + 1 + 3 * needEscapingKeys W.sign .tty out.bytes) = some dest

theorem escapeOut_clean_of_one (keys : Bool) (h : ¬ (type = .escapedKey ∧ keySeparator ∈ out.bytes)) :
    (escapeOut W .tty type out).Clean keys := by
  rw [escapeOut, if_neg (by decide), if_neg h]
  dsimp only
  split
  · rename_i hneed
    have htext : Esc.tty.escaped out.bytes = out.bytes := Esc.escaped_eq_self hneed
    exact (cleanBlock_withNul keys out).mpr (htext ▸ controlFree_escaped keys out.bytes)
  · cases hdest : W.malloc (out.strlen + 1 + 3 * Esc.tty.needEscaping W.sign out.bytes) with
    | none => trivial
    | some dest =>
      rw [Outcome.ofMalloc, escape_malloc (by decide) hdest]
      exact (cleanBlock_append (Esc.zero_notMem_escaped out.nulFree) (controlFree_escaped keys _) _).mpr
        (cleanBlock_zero_cons keys _)

theorem escapeOut_clean_iff_of_several (htype : type = .escapedKey) (hkeys : keySeparator ∈ out.bytes) :
    (escapeOut W .tty type out).Clean true ↔
      ∀ dest, Unfinished W type out dest →
        CleanBlock true (dest.drop (Esc.tty.joined out.bytes).length) := by
  have hjoined := controlFree_joined out.bytes
  have hnul : 0 ∉ Esc.tty.joined out.bytes := Esc.zero_notMem_joined out.nulFree
  rw [escapeOut, if_neg (by decide), if_pos ⟨htype, hkeys⟩]
  dsimp only
  split
  · rename_i hneed
    rw [joined_eq_self hneed] at hjoined
    exact ⟨fun _ _ h => absurd hneed h.needs, fun _ => (cleanBlock_withNul true out).mpr hjoined⟩
  · rename_i hneed
    cases hdest : W.malloc (out.strlen + 1 + 3 * needEscapingKeys W.sign .tty out.bytes) with
    | none => exact ⟨fun _ _ h => (nomatch hdest.symm.trans h.malloc), fun _ => trivial⟩
    | some dest =>
      rw [Outcome.ofMalloc, keyEscape_malloc hdest, filled]
      change CleanBlock true _ ↔ _
      by_cases hend : EndsInKey out.bytes
      · rw [if_pos hend, cleanBlock_append hnul hjoined]
        exact ⟨fun _ _ h => absurd hend h.separator, fun _ => cleanBlock_zero_cons true _⟩
      · rw [if_neg hend, cleanBlock_append hnul hjoined]
        refine ⟨fun hclean dest' h => ?_, fun h => h dest ⟨htype, hkeys, hend, hneed, hdest⟩⟩
        obtain rfl := some.inj (hdest.symm.trans h.malloc)
        exact hclean

/-- **What is computed** and escaped for a terminal has no control characters, unless it is not terminated
and the memory behind it has some. -/
theorem escapeOut_clean_iff : (escapeOut W .tty type out).Clean (decide (type = .escapedKey)) ↔
      ∀ dest, Unfinished W type out dest →
        CleanBlock true (dest.drop (Esc.tty.joined out.bytes).length) := by
  by_cases hkeys : type = .escapedKey ∧ keySeparator ∈ out.bytes
  · rw [decide_eq_true hkeys.1]
    exact escapeOut_clean_iff_of_several hkeys.1 hkeys.2
  · exact ⟨fun _ _ h => absurd ⟨h.isKey, h.several⟩ hkeys, fun _ => escapeOut_clean_of_one _ hkeys⟩

end

/-! ## All sources -/

/-- The source of the interpretation of a field is clean: what was kept from an earlier request, the list
that came with the record, or the memory in which a text that is not terminated ends. -/
def CleanSource (W : World) (c : Current) : Option Bytes → Prop
  | some block => CleanBlock (decide (c.type = .escapedKey)) block
  | none =>
    match listed (loadInterpretationList c.interp) c.name with
    | some val => ControlFree (decide (c.type = .escapedKey)) (listedText c.type val).bytes
    | none => ∀ out, printOut W (c.data none) c.type = some out → ∀ dest, Unfinished W c.type out dest →
        CleanBlock true (dest.drop (Esc.tty.joined out.bytes).length)

/-- **For a terminal, an interpretation has no control characters** just if its source has none. -/
theorem interpretField_clean_iff (W : World) (c : Current) (interpVal : Option Bytes) :
    (interpretField W c ⟨.tty, interpVal⟩).1.Clean (decide (c.type = .escapedKey)) ↔
      (c.sec ≠ 0 → CleanSource W c interpVal) := by
  rw [interpretField]
  by_cases hsec : c.sec = 0
  · rw [if_pos hsec]
    exact ⟨fun _ h => absurd hsec h, fun _ => trivial⟩
  rw [if_neg hsec, nvlistInterpCurVal, forall_prop_of_true hsec]
  cases interpVal with
  | some block => rfl
  | none =>
    simp only [interpret, auparseDoInterpretation, CleanSource, Current.data_name]
    cases listed (loadInterpretationList c.interp) c.name with
    | some val => exact cleanBlock_withNul _ _
    | none =>
      cases printOut W (c.data none) c.type with
      | none => exact ⟨fun _ _ h => (nomatch h), fun _ => trivial⟩
      | some out =>
        simp only [elim_some, some_inj, forall_eq']
        exact escapeOut_clean_iff

/-- Nothing is known in this world, but there is memory. -/
def bareWorld : World where
  lookups := ⟨fun _ => none, fun _ => none, fun _ => none, fun _ => none, none, fun _ _ => none, fun _ => none,
    fun _ => none, fun _ => none, fun _ => []⟩
  print _ _ := none
  realpath _ := none
  malloc n := some (List.replicate n 0)
  length_malloc n block h := by rw [← some.inj h, length_replicate]
  sign := .signed

/-- A field of an event without a directory, and what came with its record. -/
def currentOf (type : FieldType) (name : String) (val : Bytes) (interp : Option Bytes) : Current where
  sec := 1
  cwd := none
  interp := interp
  type := type
  machine := none
  syscall := 0
  a0 := 0
  a1 := 0
  name := ascii name
  val := val

/-- The list that came with a record puts an escape character on the terminal. -/
theorem listed_control_returned : (interpretField bareWorld
      (currentOf (.enriched .syscall) "syscall" (ascii "2") (some (ascii "SYSCALL=" ++ [27])))
      ⟨.tty, none⟩).1 = .block [27, 0] ∧ ¬ CleanBlock false [27, 0] := by
  decide +kernel

/-! ## Several requests -/

/-- The functions that ask for an interpretation. -/
inductive Request where
  | field | realpath
  deriving DecidableEq

/-- The calls that an application makes for a field. -/
inductive Call where
  | request (r : Request)
  | setEscapeMode (mode : Esc)
  deriving DecidableEq

/-- One request. -/
def Request.run (W : World) (c : Current) (s : InterpState) : Request → Outcome × InterpState
  | field => interpretField W c s
  | realpath => interpretRealpath W c s

/-- What the requests return, one after another. -/
def answers (W : World) (c : Current) : InterpState → List Call → List Outcome
  | _, [] => []
  | s, .setEscapeMode mode :: calls => answers W c { s with mode } calls
  | s, .request r :: calls =>
    let (out, s) := r.run W c s
    out :: answers W c s calls

/-- The requests, with the escape modes that are in force. -/
def requests : Esc → List Call → List (Esc × Request)
  | _, [] => []
  | _, .setEscapeMode mode :: calls => requests mode calls
  | mode, .request r :: calls => (mode, r) :: requests mode calls

/-- What a request returns if there was none before it. -/
def ownAnswer (W : World) (c : Current) (r : Esc × Request) : Outcome := (r.2.run W c ⟨r.1, none⟩).1

/-- The field has an interpretation of this sort. -/
def Request.served (c : Current) : Request → Bool
  | field => decide (c.sec ≠ 0)
  | realpath => decide (c.sec ≠ 0 ∧ c.type = .escapedFile)

/-- What the served requests would return on their own. -/
def servedAnswers (W : World) (c : Current) (mode : Esc) (calls : List Call) : List Outcome :=
  ((requests mode calls).filter fun r => r.2.served c).map (ownAnswer W c)

/-- If the first is a text, the second is the same one. -/
def Outcome.Keeps (a b : Outcome) : Prop := ∀ bytes, a = .block bytes → b = .block bytes

section

variable {W : World} {c : Current} {mode : Esc} {r : Request} {calls : List Call}

theorem run_of_not_served (h : r.served c = false) (s : InterpState) : r.run W c s = (.null, s) := by
  cases r with
  | field =>
    have hsec : c.sec = 0 := by simpa [Request.served] using h
    exact if_pos hsec
  | realpath =>
    rw [Request.run, interpretRealpath]
    split
    · rfl
    · rename_i hsec
      have htype : c.type ≠ .escapedFile := by simpa [Request.served, hsec] using h
      exact if_pos htype

/-- What is kept is returned. -/
theorem run_kept (h : r.served c = true) (mode : Esc) (bytes : Bytes) :
    r.run W c ⟨mode, some bytes⟩ = (.block bytes, ⟨mode, some bytes⟩) := by
  cases r with
  | field =>
    have hsec : c.sec ≠ 0 := by simpa [Request.served] using h
    exact if_neg hsec
  | realpath =>
    have hserved : c.sec ≠ 0 ∧ c.type = .escapedFile := by simpa [Request.served] using h
    rw [Request.run, interpretRealpath, if_neg hserved.1, if_neg (not_not.mpr hserved.2)]
    rfl

/-- What is computed is kept. -/
theorem run_fresh (h : r.served c = true) (mode : Esc) :
    r.run W c ⟨mode, none⟩ = (ownAnswer W c (mode, r), ⟨mode, (ownAnswer W c (mode, r)).pointer⟩) := by
  cases r with
  | field =>
    have hsec : c.sec ≠ 0 := by simpa [Request.served] using h
    rw [ownAnswer, Request.run, interpretField, if_neg hsec]
    rfl
  | realpath =>
    have hserved : c.sec ≠ 0 ∧ c.type = .escapedFile := by simpa [Request.served] using h
    rw [ownAnswer, Request.run, interpretRealpath, if_neg hserved.1, if_neg (not_not.mpr hserved.2)]
    rfl

theorem servedAnswers_of_served (h : r.served c = true) : servedAnswers W c mode (.request r :: calls) =
      ownAnswer W c (mode, r) :: servedAnswers W c mode calls := by
  rw [servedAnswers, requests, filter_cons, if_pos h]
  rfl

theorem servedAnswers_of_not_served (h : r.served c = false) :
    servedAnswers W c mode (.request r :: calls) = servedAnswers W c mode calls := by
  rw [servedAnswers, requests, filter_cons, if_neg (Bool.eq_false_iff.mp h)]
  rfl

theorem ownAnswer_of_not_served (h : r.served c = false) : ownAnswer W c (mode, r) = .null :=
  congrArg Prod.fst (run_of_not_served h _)

theorem answers_kept_eq_iff (bytes : Bytes) :
    answers W c ⟨mode, some bytes⟩ calls = (requests mode calls).map (ownAnswer W c) ↔
      ∀ a ∈ servedAnswers W c mode calls, a = .block bytes := by
  induction calls generalizing mode with
  | nil => simp [answers, requests, servedAnswers]
  | cons call calls ih =>
    cases call with
    | setEscapeMode mode' => exact ih
    | request r =>
      rw [answers, requests, map_cons]
      cases hserved : r.served c with
      | true =>
        rw [run_kept hserved, servedAnswers_of_served hserved, forall_mem_cons, ← ih, List.cons.injEq,
          eq_comm]
      | false =>
        rw [run_of_not_served hserved, servedAnswers_of_not_served hserved,
          ownAnswer_of_not_served hserved, ← ih, List.cons.injEq, and_iff_right rfl]

/-- Behind a text, all are the same as it. -/
theorem pairwise_keeps_cons (bytes : Bytes) (l : List Outcome) :
    (Outcome.block bytes :: l).Pairwise Outcome.Keeps ↔ ∀ a ∈ l, a = .block bytes := by
  rw [pairwise_cons]
  constructor
  · intro h a ha
    exact h.1 a ha bytes rfl
  · intro h
    refine ⟨fun a ha bytes' hbytes => hbytes ▸ h a ha, ?_⟩
    exact pairwise_of_forall_mem_list fun a ha b hb bytes' hbytes => by rw [h b hb, ← h a ha, hbytes]

/-- **Requests do not depend on earlier ones** just if every text that is computed is also what the
requests behind it would compute. -/
theorem answers_eq_iff (W : World) (c : Current) (mode : Esc) (calls : List Call) :
    answers W c ⟨mode, none⟩ calls = (requests mode calls).map (ownAnswer W c) ↔
      (servedAnswers W c mode calls).Pairwise Outcome.Keeps := by
  induction calls generalizing mode with
  | nil => simp [answers, requests, servedAnswers]
  | cons call calls ih =>
    cases call with
    | setEscapeMode mode' => exact ih mode'
    | request r =>
      rw [answers, requests, map_cons]
      cases hserved : r.served c with
      | true =>
        rw [run_fresh hserved, servedAnswers_of_served hserved, List.cons.injEq, and_iff_right rfl]
        cases ownAnswer W c (mode, r) with
        | block bytes => rw [pairwise_keeps_cons, ← answers_kept_eq_iff, Outcome.pointer]
        | null | outside =>
          rw [pairwise_cons, ← ih, Outcome.pointer]
          exact (and_iff_right fun _ _ _ h => nomatch h).symm
      | false =>
        rw [run_of_not_served hserved, servedAnswers_of_not_served hserved,
          ownAnswer_of_not_served hserved, ← ih, List.cons.injEq, and_iff_right rfl]

end

/-- Asking again in another mode returns the text of the first mode. -/
theorem first_mode_kept : answers bareWorld (currentOf .escaped "exe" (ascii "1B") none) ⟨.tty, none⟩
      [.request .field, .setEscapeMode .raw, .request .field] =
        [.block (ascii "\\033" ++ [0]), .block (ascii "\\033" ++ [0])] ∧
    (requests .tty [.request .field, .setEscapeMode .raw, .request .field]).map
      (ownAnswer bareWorld (currentOf .escaped "exe" (ascii "1B") none)) =
        [.block (ascii "\\033" ++ [0]), .block [27, 0]] := by
  decide +kernel

end LibAudit.Auparse
