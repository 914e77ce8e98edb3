import LibAudit.Lib.Text

/-!
# Looking for a name in a line

A program that looks for a field with `strstr` finds its name wherever it occurs, as the end of
another name or inside a value.  `behind p s` is what stands behind the first occurrence of `p`.

A name to look for ends with an equal sign and has no other one.  A byte that is not in it cuts the
search (`behindIf_append_cons`), so in a line of fields `name=value` every field is searched by itself:
it is found by the end of its name or by what its value has in it, whichever comes first
(`behindIf_line`).
-/

namespace Find

open List

/-- `strstr`, and what is behind that occurrence; only one with a byte before it that is `ok` counts.
The text follows `prev`. -/
def behindIf (ok : UInt8 → Bool) (p : Bytes) : UInt8 → Bytes → Option Bytes
  | _, [] => none
  | prev, c :: s =>
    if p.isPrefixOf (c :: s) && ok prev then some ((c :: s).drop p.length) else behindIf ok p c s

/-- `strstr`, and what is behind the occurrence. -/
def behind (p s : Bytes) : Option Bytes := behindIf (fun _ => true) p 0 s

variable {ok : UInt8 → Bool} {p stem : Bytes} {prev sep : UInt8}

/-! ## Bytes that cut the search -/

theorem isPrefixOf_append_cons (hs : sep ∉ p) (a b : Bytes) :
    p.isPrefixOf (a ++ sep :: b) = p.isPrefixOf a := by
  induction a generalizing p with
  | nil =>
    cases p with
    | nil => rfl
    | cons c p =>
      have hne : c ≠ sep := fun h => hs (h ▸ mem_cons_self)
      simp [List.isPrefixOf, hne]
  | cons d a ih =>
    cases p with
    | nil => rfl
    | cons c p =>
      have hs' : sep ∉ p := fun h => hs (mem_cons_of_mem _ h)
      simp [List.isPrefixOf, ih hs']

/-- What is behind an occurrence in the first part, or in the second. -/
theorem behindIf_append_cons (hp : p ≠ []) (hs : sep ∉ p) (prev : UInt8) (a b : Bytes) :
    behindIf ok p prev (a ++ sep :: b) =
      match behindIf ok p prev a with
      | some rest => some (rest ++ sep :: b)
      | none => behindIf ok p sep b := by
  induction a generalizing prev with
  | nil =>
    have hno : p.isPrefixOf (sep :: b) = false := by
      rw [← nil_append (sep :: b), isPrefixOf_append_cons hs]
      cases p with
      | nil => exact absurd rfl hp
      | cons c p => rfl
    simp [behindIf, hno]
  | cons c a ih =>
    have hpre := isPrefixOf_append_cons hs (c :: a) b
    rw [cons_append] at hpre
    rw [cons_append, behindIf, behindIf, hpre]
    split
    · rename_i hyes
      have hle : p.length ≤ (c :: a).length := by
        rw [Bool.and_eq_true, isPrefixOf_iff_prefix] at hyes
        exact hyes.1.length_le
      rw [← cons_append, drop_append_of_le_length hle]
    · exact ih c

theorem behindIf_cons (hp : p ≠ []) (hs : sep ∉ p) (prev : UInt8) (s : Bytes) :
    behindIf ok p prev (sep :: s) = behindIf ok p sep s :=
  behindIf_append_cons hp hs prev [] s

theorem behindIf_eq_none {c : UInt8} (hc : c ∈ p) {s : Bytes} (hs : c ∉ s) (prev : UInt8) :
    behindIf ok p prev s = none := by
  induction s generalizing prev with
  | nil => rfl
  | cons d s ih =>
    have hno : p.isPrefixOf (d :: s) = false := by
      rw [Bool.eq_false_iff]
      intro hyes
      exact hs ((List.isPrefixOf_iff_prefix.mp hyes).subset hc)
    rw [behindIf, hno, Bool.false_and, if_neg Bool.false_ne_true]
    exact ih (fun h => hs (mem_cons_of_mem _ h)) d

theorem behindIf_true (prev prev' : UInt8) (s : Bytes) :
    behindIf (fun _ => true) p prev s = behindIf (fun _ => true) p prev' s := by
  cases s <;> rfl

theorem behind_cons (hp : p ≠ []) (hs : sep ∉ p) (s : Bytes) : behind p (sep :: s) = behind p s := by
  rw [behind, behindIf_cons hp hs, behindIf_true sep 0, ← behind]

theorem behind_append_cons (hp : p ≠ []) (hs : sep ∉ p) (a b : Bytes) : behind p (a ++ sep :: b) =
      match behind p a with
      | some rest => some (rest ++ sep :: b)
      | none => behind p b := by
  rw [behind, behindIf_append_cons hp hs, behindIf_true sep 0]
  rfl

/-! ## Lines of fields -/

/-- The equal sign. -/
abbrev equals : UInt8 := 61

/-- The blank. -/
abbrev blank : UInt8 := 32

/-- The name ends with `stem`, and the byte before that is `ok`. -/
def endsWith (ok : UInt8 → Bool) (stem : Bytes) : UInt8 → Bytes → Bool
  | prev, [] => stem.isEmpty && ok prev
  | prev, c :: name => (stem == c :: name && ok prev) || endsWith ok stem c name

theorem isPrefixOf_equals (hstem : equals ∉ stem) {name : Bytes} (hname : equals ∉ name)
    (s : Bytes) : (stem ++ [equals]).isPrefixOf (name ++ equals :: s) = (stem == name) := by
  induction stem generalizing name with
  | nil =>
    cases name with
    | nil => rfl
    | cons c name =>
      have hne : equals ≠ c := fun h => hname (h ▸ mem_cons_self)
      simp [List.isPrefixOf, hne]
  | cons d stem ih =>
    have hstem' : equals ∉ stem := fun h => hstem (mem_cons_of_mem _ h)
    cases name with
    | nil =>
      have hne : d ≠ equals := fun h => hstem (h ▸ mem_cons_self)
      simp [List.isPrefixOf, hne]
    | cons c name =>
      grind

/-- The name that is looked for is the one before the first equal sign, or comes later. -/
theorem behindIf_equals (hstem : equals ∉ stem) {name : Bytes} (hname : equals ∉ name)
    (prev : UInt8) (s : Bytes) :
    behindIf ok (stem ++ [equals]) prev (name ++ equals :: s) =
      if endsWith ok stem prev name then some s else behindIf ok (stem ++ [equals]) equals s := by
  induction name generalizing prev with
  | nil =>
    have hpre := isPrefixOf_equals hstem hname s
    rw [nil_append] at hpre
    rw [nil_append, behindIf, endsWith, hpre]
    cases stem with
    | nil => rfl
    | cons d stem => rfl
  | cons c name ih =>
    have hname' : equals ∉ name := fun h => hname (mem_cons_of_mem _ h)
    have hpre := isPrefixOf_equals hstem hname s
    rw [cons_append] at hpre
    rw [cons_append, behindIf, endsWith, hpre]
    by_cases hyes : (stem == c :: name && ok prev) = true
    · simp_all
    · rw [if_neg hyes, Bool.eq_false_iff.mpr hyes, Bool.false_or]
      exact ih hname' c

/-- Fields, each after a blank. -/
def line (fs : List (Bytes × Bytes)) : Bytes :=
  fs.flatMap fun f => blank :: (f.1 ++ equals :: f.2)

@[simp] theorem line_nil : line [] = [] := rfl

theorem line_cons (f : Bytes × Bytes) (fs : List (Bytes × Bytes)) :
    line (f :: fs) = blank :: (f.1 ++ equals :: (f.2 ++ line fs)) := by
  simp [line]

/-- A field that a search sees as one: no equal sign in its name, no blank in its value. -/
structure Field (f : Bytes × Bytes) : Prop where
  name : equals ∉ f.1
  value : blank ∉ f.2

/-- A name to look for. -/
structure Stem (stem : Bytes) : Prop where
  equals : equals ∉ stem
  blank : blank ∉ stem

/-- The field a search ends in: what is left of its value, and the fields behind it.  It is the first one
whose name ends with `stem`, or that has `stem` and an equal sign in its value. -/
def findIn (ok : UInt8 → Bool) (stem : Bytes) :
    List (Bytes × Bytes) → Option (Bytes × List (Bytes × Bytes))
  | [] => none
  | f :: fs =>
    if endsWith ok stem blank f.1 then some (f.2, fs)
    else
      match behindIf ok (stem ++ [equals]) equals f.2 with
      | some x => some (x, fs)
      | none => findIn ok stem fs

/-- The text from where a search ends. -/
def textFrom (found : Bytes × List (Bytes × Bytes)) : Bytes := found.1 ++ line found.2

theorem Stem.blank_notMem (h : Stem stem) : Find.blank ∉ stem ++ [Find.equals] := by
  rw [mem_append, mem_singleton]
  exact not_or.mpr ⟨h.blank, by decide⟩

/-- One field, without the blank before it. -/
theorem behindIf_field (hstem : Stem stem) {f : Bytes × Bytes} (hf : Field f) (prev : UInt8)
    (fs : List (Bytes × Bytes)) :
    behindIf ok (stem ++ [equals]) prev (f.1 ++ equals :: (f.2 ++ line fs)) =
      if endsWith ok stem prev f.1 then some (f.2 ++ line fs)
      else
        match behindIf ok (stem ++ [equals]) equals f.2 with
        | some x => some (x ++ line fs)
        | none => behindIf ok (stem ++ [equals]) equals (line fs) := by
  rw [behindIf_equals hstem.equals hf.name]
  cases fs with
  | nil =>
    rw [line_nil, append_nil]
    congr 1
    cases behindIf ok (stem ++ [equals]) equals f.2 with
    | some x => exact congrArg some (append_nil x).symm
    | none => rfl
  | cons g fs =>
    have hne : stem ++ [equals] ≠ [] := by simp
    rw [line_cons, behindIf_append_cons hne hstem.blank_notMem, behindIf_cons hne hstem.blank_notMem]

/-- **A search in a line ends in the first field that has the name.** -/
theorem behindIf_line (hstem : Stem stem) {fs : List (Bytes × Bytes)} (hfs : ∀ f ∈ fs, Field f)
    (prev : UInt8) :
    behindIf ok (stem ++ [equals]) prev (line fs) = (findIn ok stem fs).map textFrom := by
  induction fs generalizing prev with
  | nil => rfl
  | cons f fs ih =>
    have hrest := ih fun g hg => hfs g (mem_cons_of_mem f hg)
    rw [line_cons, behindIf_cons (by simp) hstem.blank_notMem,
      behindIf_field hstem (hfs f mem_cons_self), findIn, hrest]
    split
    · rfl
    · cases behindIf ok (stem ++ [equals]) equals f.2 <;> rfl

theorem findIn_append {q : List (Bytes × Bytes)} (fs : List (Bytes × Bytes))
    (hq : ∀ f ∈ q, endsWith ok stem blank f.1 = false ∧ equals ∉ f.2) :
    findIn ok stem (q ++ fs) = findIn ok stem fs := by
  induction q with
  | nil => rfl
  | cons f q ih =>
    obtain ⟨hname, hvalue⟩ := hq f mem_cons_self
    have hmem : equals ∈ stem ++ [equals] := by simp
    rw [cons_append, findIn, hname, behindIf_eq_none hmem hvalue]
    exact ih fun g hg => hq g (mem_cons_of_mem f hg)

theorem findIn_cons_self {f : Bytes × Bytes} (hname : endsWith ok stem blank f.1 = true)
    (fs : List (Bytes × Bytes)) : findIn ok stem (f :: fs) = some (f.2, fs) := by
  rw [findIn, hname, if_pos rfl]

/-! ## Names that begin with a blank -/

theorem behindIf_blank (hp : p ≠ []) (prev : UInt8) (s : Bytes) :
    behind (blank :: p) (prev :: s) = behindIf (· == blank) p prev s := by
  induction s generalizing prev with
  | nil =>
    simp [behind, behindIf, List.isPrefixOf]
  | cons c s ih =>
    have hstep := ih c
    rw [behind, behindIf_true 0 prev] at hstep
    have hunfold : behind (blank :: p) (prev :: c :: s) =
        if (blank :: p).isPrefixOf (prev :: c :: s) && true then some ((c :: s).drop p.length)
        else behindIf (fun _ => true) (blank :: p) prev (c :: s) := rfl
    have hcond : ((blank :: p).isPrefixOf (prev :: c :: s) && true) =
        (p.isPrefixOf (c :: s) && (prev == blank)) := by
      rw [List.isPrefixOf, Bool.and_true, Bool.and_comm, Bool.beq_comm]
    rw [hunfold, hstep, hcond, behindIf]

/-- To look for a name with a blank before it is to look for the name where there is a blank before
it. -/
theorem behind_blank (hp : p ≠ []) (s : Bytes) :
    behind (blank :: p) s = behindIf (· == blank) p 0 s := by
  rw [← behindIf_blank hp, behind, behind, behindIf]
  exact (behindIf_true 0 0 s).trans rfl

end Find
