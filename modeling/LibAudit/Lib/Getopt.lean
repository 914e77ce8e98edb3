import LibAudit.Lib.Text

/-!
# Command lines

`getopt_long` of the GNU library, for options of one letter and long options.  An option that takes an
argument has it in the same word, or else in the next one, whatever that looks like; a long option may be
abbreviated.  Words that are neither options nor arguments are left for the end.

`getoptLong` gives what all the calls return.  A program that stops calling uses a part of that.
-/

namespace Getopt

open List

/-- The options of a program. -/
structure Spec (α : Type) where
  /-- The options of one letter, and whether they take an argument. -/
  short : UInt8 → Option (α × Bool)
  /-- The long options. -/
  long : List (Bytes × α × Bool)

/-- What one call returns. -/
structure Event (α : Type) where
  /-- The option; nothing if it is not known or its argument is missing. -/
  opt : Option α
  /-- `optarg`, which is empty if there is none. -/
  arg : Bytes
  optind : Nat

variable {α : Type} (spec : Spec α)

/-- The long option a name stands for: that of this name, or the only one that begins with it. -/
def Spec.find (name : Bytes) : Option (α × Bool) :=
  match spec.long.find? (·.1 == name) with
  | some e => some e.2
  | none =>
    match spec.long.filter fun e => name.isPrefixOf e.1 with
    | [e] => some e.2
    | _ => none

/-- The options in the `i`-th word, behind its dash; `next` is the word that follows.  Whether that has
been used is returned, too. -/
def cluster (i : Nat) (next : Option Bytes) : Bytes → List (Event α) × Bool
  | [] => ([], false)
  | c :: rest =>
    let optind := if rest = [] then i + 1 else i
    match spec.short c with
    | none =>
      let r := cluster i next rest
      (⟨none, [], optind⟩ :: r.1, r.2)
    | some (opt, false) =>
      let r := cluster i next rest
      (⟨some opt, [], optind⟩ :: r.1, r.2)
    | some (opt, true) =>
      if rest ≠ [] then ([⟨some opt, rest, i + 1⟩], false)
      else
        match next with
        | some arg => ([⟨some opt, arg, i + 2⟩], true)
        | none => ([⟨none, [], i + 1⟩], false)

/-- The option in the `i`-th word, behind its two dashes. -/
def longOption (i : Nat) (next : Option Bytes) (word : Bytes) : Event α × Bool :=
  match spec.find (word.takeWhile (· != 61)) with
  | none => (⟨none, [], i + 1⟩, false)
  | some (opt, takes) =>
    if 61 ∈ word then
      if takes then (⟨some opt, (word.dropWhile (· != 61)).drop 1, i + 1⟩, false)
      else (⟨none, [], i + 1⟩, false)
    else if takes then
      match next with
      | some arg => (⟨some opt, arg, i + 2⟩, true)
      | none => (⟨none, [], i + 1⟩, false)
    else (⟨some opt, [], i + 1⟩, false)

/-- The options in the `i`-th word. -/
def options (i : Nat) (next : Option Bytes) (word : Bytes) : List (Event α) × Bool :=
  if word.tail.head? = some 45 then
    let r := longOption spec i next (word.drop 2)
    ([r.1], r.2)
  else cluster spec i next word.tail

/-- The options in some words, the first of which is the `i`-th one, and the words that are left.  The
first word may have been used as an argument. -/
def getoptLong (i : Nat) (used : Bool) : List Bytes → List (Event α) × List Bytes
  | [] => ([], [])
  | w :: ws =>
    if used then getoptLong (i + 1) false ws
    else if w = [45, 45] then ([], ws)
    else if w.head? = some 45 ∧ w ≠ [45] then
      let r := options spec i ws.head? w
      let rest := getoptLong (i + 1) r.2 ws
      (r.1 ++ rest.1, rest.2)
    else
      let rest := getoptLong (i + 1) false ws
      (rest.1, w :: rest.2)

/-! ## Where arguments come from -/

variable {spec}

/-- The argument of an option is part of its word, or it is the next word. -/
def From (word : Bytes) (next : Option Bytes) (arg : Bytes) : Prop :=
  arg.Sublist word ∨ next = some arg

theorem From.nil (word : Bytes) (next : Option Bytes) : From word next [] := .inl (nil_sublist _)

variable {next : Option Bytes}

theorem cluster_from {i : Nat} {word : Bytes} :
    ∀ ev ∈ (cluster spec i next word).1, From word next ev.arg := by
  induction word with
  | nil => exact fun ev hev => by cases hev
  | cons c rest ih =>
    have hrest : ∀ ev ∈ (cluster spec i next rest).1, From (c :: rest) next ev.arg := fun ev hev =>
      (ih ev hev).imp_left (.cons c)
    rw [cluster]
    split
    · exact forall_mem_cons.mpr ⟨From.nil _ _, hrest⟩
    · exact forall_mem_cons.mpr ⟨From.nil _ _, hrest⟩
    · split
      · exact forall_mem_singleton.mpr (.inl (sublist_cons_self c rest))
      · split
        · exact forall_mem_singleton.mpr (.inr rfl)
        · exact forall_mem_singleton.mpr (From.nil _ _)

theorem longOption_from {i : Nat} {word : Bytes} :
    From word next (longOption spec i next word).1.arg := by
  rw [longOption]
  split
  · exact From.nil _ _
  · split
    · split
      · exact .inl ((drop_sublist _ _).trans (dropWhile_sublist _))
      · exact From.nil _ _
    · split
      · split
        · exact .inr rfl
        · exact From.nil _ _
      · exact From.nil _ _

theorem options_from {i : Nat} {word : Bytes} :
    ∀ ev ∈ (options spec i next word).1, From word next ev.arg := by
  rw [options]
  split
  · exact forall_mem_singleton.mpr
      (longOption_from.imp_left fun h => h.trans (drop_sublist _ _))
  · exact fun ev hev => (cluster_from ev hev).imp_left fun h => h.trans (tail_sublist _)

/-- **An argument is part of a word.** -/
theorem sublist_of_mem_getoptLong {i : Nat} {used : Bool} {ws : List Bytes} :
    ∀ ev ∈ (getoptLong spec i used ws).1, ∃ w ∈ ws, ev.arg.Sublist w := by
  induction ws generalizing i used with
  | nil => exact fun ev hev => by cases hev
  | cons w ws ih =>
    have hrest : ∀ i used, ∀ ev ∈ (getoptLong spec i used ws).1, ∃ v ∈ w :: ws, ev.arg.Sublist v :=
      fun i used ev hev => by
        obtain ⟨v, hv, harg⟩ := ih ev hev
        exact ⟨v, mem_cons_of_mem w hv, harg⟩
    rw [getoptLong]
    split
    · exact hrest _ _
    · split
      · exact fun ev hev => by cases hev
      · split
        · intro ev hev
          rcases mem_append.mp hev with hmem | hmem
          · rcases options_from ev hmem with hword | hnext
            · exact ⟨w, mem_cons_self, hword⟩
            · exact ⟨ev.arg, mem_cons_of_mem w (mem_of_head? hnext), .refl _⟩
          · exact hrest _ _ ev hmem
        · exact hrest _ _

end Getopt
