import LibAudit.Rules.GivenKeys
import LibAudit.Rules.Lines

/-!
# Each line of a rules file starts afresh

What is sent for a line of a rules file should not depend on the lines before it.  The options of a line
work on global variables.  `reset_vars` sets most of them back, `setopt` the ones for keys; a few are
left as they are, but no option that builds a rule reads those.  So it makes no difference which lines
have been read, and whether they were accepted: `sentAfter_eq`.

There is one way in which the text of a line is not everything.  `postprocess` reads behind the end of a
token that ends in the first byte of a pair, and takes what it finds there for a part of the line.
`LineReads` is which tokens a line can be taken for.  There is only one way to read a line exactly if no
token behind the first one ends in an odd number of marks (`wholeTokens_spec`), and then what is sent for
it depends on its text only.
-/

namespace LibAudit.Rules

open Hoare List

/-! ## What is read from a line -/

/-- `postprocess`, where `behind` is what is copied from behind the end of the string. -/
def postprocessBehind (behind : Bytes) : Bytes → Bytes
  | [] => []
  | [c] => if c = 7 then 32 :: behind else if c = 4 then 92 :: behind else [c]
  | c :: d :: buf =>
    if c = 7 then 32 :: postprocessBehind behind buf
    else if c = 4 then 92 :: postprocessBehind behind buf
    else c :: postprocessBehind behind (d :: buf)

/-- What can be copied from there: marks are replaced in it, too. -/
def Unmarked (behind : Bytes) : Prop :=
  0 ∉ behind ∧ 7 ∉ behind ∧ 4 ∉ behind

instance (behind : Bytes) : Decidable (Unmarked behind) := inferInstanceAs (Decidable (_ ∧ _ ∧ _))

/-- What is left of the line behind the token `ptr`, once `field` has been written over it. -/
def overwrite (field ptr rest : Bytes) : Bytes :=
  if field.length ≤ ptr.length then rest else field.drop (ptr.length + 1)

/-- What the loop over the tokens can come to.  A token that is read from behind its end is also written
there, over the separator and what follows. -/
inductive ReadsFields : Nat → Option Bytes → List Bytes → Prop
  | full (saved : Option Bytes) : ReadsFields 0 saved []
  | last (room : Nat) : ReadsFields (room + 1) none []
  | done {room : Nat} {str : Bytes} {saved : Option Bytes} (h : auditStrsplit str = (none, saved)) :
      ReadsFields (room + 1) (some str) []
  | token {room : Nat} {str ptr field : Bytes} {saved : Option Bytes} {fields : List Bytes}
      (h : auditStrsplit str = (some ptr, saved)) (hfield : postprocess ptr = some field)
      (hfields : ReadsFields room saved fields) : ReadsFields (room + 1) (some str) (field :: fields)
  | behind {room : Nat} {str ptr : Bytes} {saved : Option Bytes} {fields : List Bytes} (b : Bytes)
      (h : auditStrsplit str = (some ptr, saved)) (hfield : postprocess ptr = none) (hb : Unmarked b)
      (hfields : ReadsFields room (saved.map (overwrite (postprocessBehind b ptr) ptr)) fields) :
      ReadsFields (room + 1) (some str) (postprocessBehind b ptr :: fields)

/-- The tokens that `setopt` can get for a line. -/
def LineReads (line : Bytes) (fields : List Bytes) : Prop :=
  ¬ Skipped line ∧ ∃ ptr saved later, auditStrsplit (preprocess false line) = (some ptr, saved) ∧
    ReadsFields (line.length / 3) saved later ∧ fields = ptr :: later

/-- How many bytes that mark a pair are at the end of a token. -/
def marksAtEnd (ptr : Bytes) : Nat := (ptr.reverse.takeWhile fun c => c == 7 || c == 4).length

/-- No token behind the first one, as far as there is room for them, ends in the first byte of a pair. -/
def WholeTokens (line : Bytes) : Prop :=
  ∀ part ∈ ((parts line).drop 1).take (line.length / 3), marksAtEnd (part.flatMap Sym.mark) % 2 = 0

instance (line : Bytes) : Decidable (WholeTokens line) := inferInstanceAs (Decidable (∀ _ ∈ _, _))

/-! ## What is done with it -/

/-- What `setopt` returns, wherever it does. -/
def returned (m : CtlM Int) : CtlM Int := fun g =>
  match m g with
  | .ok r g' => .ok r g'
  | .error r g' => .ok r g'

/-- The body of the loop in `fileopt`, from `reset_vars` on. -/
def processLine (env : Env) (kernel : Kernel) (fields : List Bytes) : CtlM Unit := do
  modify fun g => { g with sent := [] }
  let ok ← resetVars kernel
  if ok then do
    let rc ← returned (setopt env kernel fields)
    if rc ≠ -3 then do
      let _ ← handleRequest env kernel rc
    else pure ()
  else pure ()

/-- The variables after a line. -/
def lineAfter (env : Env) (kernel : Kernel) (g : Ctl) (fields : List Bytes) : Ctl :=
  match processLine env kernel fields g with
  | .ok _ g' => g'
  | .error _ g' => g'

/-- The variables when `fileopt` is called. -/
def fileStart (kernel : Kernel) : Ctl := { Ctl.initial with fd := kernel.socket }

/-- The variables after some lines, accepted or not. -/
def after (env : Env) (kernel : Kernel) (lines : List (List Bytes)) : Ctl :=
  lines.foldl (lineAfter env kernel) (fileStart kernel)

/-- What is sent for a line after some others. -/
def sentAfter (env : Env) (kernel : Kernel) (earlier : List (List Bytes)) (fields : List Bytes) :
    List Request :=
  (lineAfter env kernel (after env kernel earlier) fields).sent

/-- What is sent for the line depends on its text only: not on the lines before it, and not on what is
behind its tokens. -/
def LineOnly (env : Env) (kernel : Kernel) (line : Bytes) : Prop :=
  ∀ earlier earlier' fields fields', LineReads line fields → LineReads line fields' →
    sentAfter env kernel earlier fields = sentAfter env kernel earlier' fields'

/-! ## Variables that are left -/

/-- The variables that are neither left as they are nor set by `setopt`. -/
def Ctl.unkeyed (g : Ctl) : Ctl := { g.view with key := [], keylen := 0, count := 0 }

/-- The socket is open only if there is one. -/
def Opened (kernel : Kernel) (g : Ctl) : Prop := g.fd = true → kernel.socket = true

theorem resetVars_eq (kernel : Kernel) (g : Ctl) : resetVars kernel g =
    .ok (g.fd || kernel.socket) { g with
      listRequested := false, add := none, prepend := false, del := none, action := none,
      exclude := false, multiple := 0, builder := start Given.none true
      fd := g.fd || kernel.socket } := by
  obtain ⟨socket, answer⟩ := kernel
  cases g
  rename_i fd _ _
  cases fd <;> cases socket <;> rfl

theorem resetVars_both (kernel : Kernel) {E : Ctl → Ctl → Prop} :
    Both (fun g g' => Opened kernel g ∧ Opened kernel g' ∧ g.sent = [] ∧ g'.sent = [])
      (resetVars kernel) (resetVars kernel)
      (fun ok ok' g g' => ok = ok' ∧ g.unkeyed = g'.unkeyed) E := by
  rintro g g' ⟨hg, hg', hsent, hsent'⟩
  have hfd : ∀ g : Ctl, Opened kernel g → (g.fd || kernel.socket) = kernel.socket := fun g hg => by
    cases hfd : g.fd with
    | false => rfl
    | true => rw [hg hfd]; rfl
  rw [resetVars_eq, resetVars_eq, hfd g hg, hfd g' hg']
  simp [Ctl.unkeyed, Ctl.view, hsent, hsent']

theorem returned_both {m : CtlM Int} {P R E : Ctl → Ctl → Prop}
    (h : Both P m m (fun a a' g g' => a = a' ∧ R g g') R) :
    Both P (returned m) (returned m) (fun a a' g g' => a = a' ∧ R g g') E := by
  intro g g' hg
  rw [returned, returned]
  rcases h.cases hg with ⟨a, a', t, t', hm, hm', ht⟩ | ⟨e, t, t', hm, hm', ht⟩
  · rw [hm, hm']
    exact ht
  · rw [hm, hm']
    exact ⟨rfl, ht⟩

/-- What `setopt` does after it has set its own variables. -/
theorem setoptRest_built (env : Env) (kernel : Kernel) (vars : List Bytes) : Built false (do
    let r ← optionLoop env kernel vars
      (vars.length + 1 - (Getopt.getoptLong ctlSpec 1 false vars).2.length) 0
      (Getopt.getoptLong ctlSpec 1 false vars).1
    let g ← get
    addKey env (leftOver r.1 r.2 g.count)) :=
  .bind (optionLoop_built kernel env vars _ 0 _) fun _ => .read (fun _ => rfl) fun _ => addKey_built env _

theorem setopt_both (env : Env) (kernel : Kernel) (vars : List Bytes) :
    Both (fun g g' => g.unkeyed = g'.unkeyed) (setopt env kernel vars) (setopt env kernel vars)
      (fun a a' g g' => a = a' ∧ g.view = g'.view) fun g g' => g.view = g'.view := by
  refine .bind (Q := fun _ _ g g' => g.view = g'.view) (.modify fun g g' hg => ?_) fun _ _ => ?_
  · exact congrArg (fun g : Ctl => { g with key := [], keylen := maxKeyLen, count := vars.length + 1 }) hg
  · exact (setoptRest_built env kernel vars).alike.both

/-- **A line is processed in the same way, whatever the variables are.** -/
theorem processLine_both (env : Env) (kernel : Kernel) (fields : List Bytes) :
    Both (fun g g' => Opened kernel g ∧ Opened kernel g') (processLine env kernel fields)
      (processLine env kernel fields) (fun _ _ g g' => g.sent = g'.sent) fun g g' => g.sent = g'.sent := by
  have hsent : ∀ g g' : Ctl, g.view = g'.view → g.sent = g'.sent := fun g g' h => by
    have hview : g.view.sent = g'.view.sent := congrArg Ctl.sent h
    exact hview
  refine .bind (Q := fun _ _ g g' => Opened kernel g ∧ Opened kernel g' ∧ g.sent = [] ∧ g'.sent = [])
    (.modify fun g g' hg => ⟨hg.1, hg.2, rfl, rfl⟩) fun _ _ => ?_
  refine .bind (resetVars_both kernel) fun ok ok' => ?_
  rintro g g' ⟨rfl, hg⟩
  refine Both.ite (P := fun g g' => g.unkeyed = g'.unkeyed) (fun _ => ?_) (fun _ => Both.pure ?_) g g' hg
  · refine Both.bind (returned_both (setopt_both env kernel fields)) fun rc rc' => ?_
    rintro g g' ⟨rfl, hg⟩
    refine Both.ite (P := fun g g' => g.view = g'.view) (fun _ => ?_) (fun _ => Both.pure hsent) g g' hg
    exact Both.bind ((handleRequest_built kernel env rc).alike.both.conseq (fun _ _ => id)
      (fun _ _ g g' h => hsent g g' h.2) hsent) fun _ _ => Both.pure fun _ _ => id
  · intro g g' hg
    have hunkeyed : g.unkeyed.sent = g'.unkeyed.sent := congrArg Ctl.sent hg
    exact hunkeyed

theorem returned_closed {m : CtlM Int} {P : Ctl → Prop} {E : Int → Ctl → Prop}
    (h : Triple P m (fun _ => P) fun _ => P) : Triple P (returned m) (fun _ => P) E := by
  intro g hg
  have := h g hg
  rw [returned]
  cases hm : m g with
  | ok r g' => rw [hm] at this; exact this
  | error r g' => rw [hm] at this; exact this

theorem processLine_opened (env : Env) (kernel : Kernel) (fields : List Bytes) :
    Triple (Opened kernel) (processLine env kernel fields) (fun _ => Opened kernel)
      fun _ => Opened kernel := by
  refine .bind (Q := fun _ => Opened kernel) (.modify fun _ hg => hg) fun _ =>
    .bind (Q := fun _ => Opened kernel) (fun g hg => ?_) fun ok => .ite (fun _ => ?_) fun _ =>
      .pure _ fun _ => id
  · rw [resetVars_eq]
    intro hfd
    rcases Bool.or_eq_true_iff.mp hfd with h | h
    · exact hg h
    · exact h
  · have hsetopt : Built false (setopt env kernel fields) :=
      .bind (.modify (fun _ => rfl) (fun _ => id) fun h => by cases h) fun _ =>
        setoptRest_built env kernel fields
    refine .bind (returned_closed (hsetopt.closed _)) fun rc => .ite (fun _ => ?_) fun _ =>
      .pure _ fun _ => id
    exact .bind ((handleRequest_built kernel env rc).closed _) fun _ => .pure _ fun _ => id

theorem lineAfter_opened (env : Env) {kernel : Kernel} {g : Ctl} (h : Opened kernel g)
    (fields : List Bytes) : Opened kernel (lineAfter env kernel g fields) := by
  have := processLine_opened env kernel fields g h
  rw [lineAfter]
  grind

theorem after_opened (env : Env) (kernel : Kernel) (lines : List (List Bytes)) :
    Opened kernel (after env kernel lines) := by
  have hfold : ∀ g, Opened kernel g → Opened kernel (lines.foldl (lineAfter env kernel) g) := by
    induction lines with
    | nil => exact fun _ => id
    | cons fields lines ih => exact fun g hg => ih _ (lineAfter_opened env hg fields)
  exact hfold _ id

/-- **What is sent for a line is the same after any lines.** -/
theorem sentAfter_eq (env : Env) (kernel : Kernel) (earlier earlier' : List (List Bytes))
    (fields : List Bytes) :
    sentAfter env kernel earlier fields = sentAfter env kernel earlier' fields := by
  have hboth := (processLine_both env kernel fields).cases
    ⟨after_opened env kernel earlier, after_opened env kernel earlier'⟩
  rw [sentAfter, sentAfter, lineAfter, lineAfter]
  grind

/-! ## Reading behind a token -/

theorem marksAtEnd_cons (c : UInt8) (ptr : Bytes) : marksAtEnd (c :: ptr) =
    if (c = 7 ∨ c = 4) ∧ marksAtEnd ptr = ptr.length then ptr.length + 1 else marksAtEnd ptr := by
  rw [marksAtEnd, reverse_cons, takeWhile_append, length_reverse, ← marksAtEnd]
  by_cases hall : marksAtEnd ptr = ptr.length
  · by_cases hc : c = 7 ∨ c = 4
    · simp [hall, hc]
    · simp [hall, not_or.mp hc]
  · simp only [hall, and_false, if_false]
    rfl

/-- A mark and the byte behind it, whatever it is, make no difference. -/
theorem marksAtEnd_pair {c : UInt8} (hc : c = 7 ∨ c = 4) (d : UInt8) (ptr : Bytes) :
    marksAtEnd (c :: d :: ptr) % 2 = marksAtEnd ptr % 2 := by
  have hle : marksAtEnd ptr ≤ ptr.length :=
    (takeWhile_sublist _).length_le.trans_eq length_reverse
  rw [marksAtEnd_cons, marksAtEnd_cons, length_cons]
  by_cases hd : d = 7 ∨ d = 4 <;> simp only [hc, hd, true_and, false_and, if_false] <;> split_ifs <;> omega

/-- **`postprocess` stays within the token exactly if the marks at its end are an even number.** -/
theorem postprocess_isSome_iff (ptr : Bytes) :
    (postprocess ptr).isSome = true ↔ marksAtEnd ptr % 2 = 0 := by
  fun_induction postprocess ptr with
  | case1 => exact iff_of_true rfl rfl
  | case2 c h => exact iff_of_false Bool.false_ne_true (by simp [marksAtEnd, h])
  | case3 c h => exact iff_of_true rfl (by simp [marksAtEnd, not_or.mp h])
  | case4 d buf ih => rw [Option.isSome_map, ih, marksAtEnd_pair (.inl rfl)]
  | case5 d buf _ ih => rw [Option.isSome_map, ih, marksAtEnd_pair (.inr rfl)]
  | case6 c d buf h7 h4 ih =>
    rw [Option.isSome_map, ih, marksAtEnd_cons c, if_neg fun h => h.1.elim h7 h4]

theorem length_postprocessBehind {ptr : Bytes} (h : postprocess ptr = none) (b b' : Bytes) :
    (postprocessBehind b ptr).length + b'.length = (postprocessBehind b' ptr).length + b.length := by
  fun_induction postprocess ptr with
  | case1 => cases h
  | case2 c hc => rcases hc with rfl | rfl <;> simp [postprocessBehind] <;> omega
  | case3 c _ => cases h
  | case4 d buf ih =>
    have := ih (Option.map_eq_none_iff.mp h)
    simp only [postprocessBehind, if_true, length_cons]
    omega
  | case5 d buf h7 ih =>
    have := ih (Option.map_eq_none_iff.mp h)
    simp only [postprocessBehind, if_neg h7, if_true, length_cons]
    omega
  | case6 c d buf h7 h4 ih =>
    have := ih (Option.map_eq_none_iff.mp h)
    rw [postprocessBehind, postprocessBehind, if_neg h7, if_neg h4, if_neg h7, if_neg h4, length_cons,
      length_cons]
    omega

theorem exists_readsFields (room : Nat) (saved : Option Bytes) : ∃ fields, ReadsFields room saved fields := by
  induction room generalizing saved with
  | zero => exact ⟨[], .full saved⟩
  | succ room ih =>
    cases saved with
    | none => exact ⟨[], .last room⟩
    | some str =>
      rcases hsplit : auditStrsplit str with ⟨_ | ptr, saved⟩
      · exact ⟨[], .done hsplit⟩
      · cases hfield : postprocess ptr with
        | some field => exact (ih saved).imp' _ fun _ => .token hsplit hfield
        | none => exact (ih _).imp' _ fun _ => .behind [] hsplit hfield (by decide)

/-- As long as no token is read from behind its end, the loop comes to what it does in `takeFields`. -/
theorem ReadsFields.eq_of_takeFields {room : Nat} {saved : Option Bytes} {fields fs : List Bytes}
    (h : ReadsFields room saved fields) (hfs : takeFields room saved = some fs) : fields = fs := by
  induction h generalizing fs with
  | full saved => exact Option.some.inj hfs
  | last room => exact Option.some.inj hfs
  | done h =>
    rw [takeFields, h] at hfs
    exact Option.some.inj hfs
  | token h hfield hfields ih =>
    rw [takeFields, h] at hfs
    simp only [hfield, Option.bind_eq_bind, Option.bind_some, Option.bind_eq_some_iff] at hfs
    obtain ⟨later, hlater, heq⟩ := hfs
    rw [ih hlater]
    exact Option.some.inj heq
  | behind b h hfield hb hfields ih =>
    rw [takeFields, h] at hfs
    simp [hfield] at hfs

/-- Otherwise what is behind the end can be a byte or nothing. -/
theorem exists_readsFields_ne {room : Nat} {saved : Option Bytes} (h : takeFields room saved = none) :
    ∃ fields fields', ReadsFields room saved fields ∧ ReadsFields room saved fields' ∧ fields ≠ fields' := by
  induction room generalizing saved with
  | zero => cases h
  | succ room ih =>
    cases saved with
    | none => cases h
    | some str =>
      rw [takeFields] at h
      rcases hsplit : auditStrsplit str with ⟨_ | ptr, saved⟩
      · rw [hsplit] at h
        cases h
      · cases hfield : postprocess ptr with
        | some field =>
          have hnone : takeFields room saved = none := by
            cases hlater : takeFields room saved with
            | none => rfl
            | some later => simp [hsplit, hfield, hlater] at h
          obtain ⟨fields, fields', hreads, hreads', hne⟩ := ih hnone
          exact ⟨_, _, .token hsplit hfield hreads, .token hsplit hfield hreads',
            fun heq => hne (cons.inj heq).2⟩
        | none =>
          obtain ⟨fields, hreads⟩ := exists_readsFields room
            (saved.map (overwrite (postprocessBehind [] ptr) ptr))
          obtain ⟨fields', hreads'⟩ := exists_readsFields room
            (saved.map (overwrite (postprocessBehind [120] ptr) ptr))
          refine ⟨_, _, .behind [] hsplit hfield (by decide) hreads,
            .behind [120] hsplit hfield (by decide) hreads', fun heq => ?_⟩
          have hlen := length_postprocessBehind hfield [] [120]
          rw [(cons.inj heq).1] at hlen
          simp at hlen

theorem isSome_mapM_iff {α β : Type} {f : α → Option β} {l : List α} :
    (l.mapM f).isSome = true ↔ ∀ a ∈ l, (f a).isSome = true := by
  induction l with
  | nil => simp
  | cons a l ih =>
    rw [forall_mem_cons, ← ih, mapM_cons]
    cases f a <;> cases l.mapM f <;> simp

/-- The first token of a line that is not skipped, and how the rest of it is taken. -/
theorem split_of_not_skipped {line : Bytes} (h : ¬ Skipped line) : ∃ ptr saved,
    auditStrsplit (preprocess false line) = (some ptr, saved) ∧
      ((takeFields (line.length / 3) saved).isSome = true ↔ WholeTokens line) := by
  have hwords := words_preprocess line
  rcases auditStrsplit_spec (preprocess false line) with ⟨hblank, -⟩ | ⟨ptr, saved, hsplit, hcons, -⟩
  · rw [preprocess_spaces] at hblank
    exact absurd hblank (preprocess_ne_nil (not_or.mp h).1)
  · refine ⟨ptr, saved, hsplit, ?_⟩
    rw [hcons] at hwords
    obtain ⟨part, rest, hparts, -, hrest⟩ := map_eq_cons_iff.mp hwords.symm
    rw [takeFields_eq, ← hrest, isSome_mapM_iff, ← map_take, forall_mem_map, WholeTokens, hparts]
    exact forall₂_congr fun _ _ => postprocess_isSome_iff _

/-- **A line can be read in one way only exactly if its tokens are whole, and what is sent for it then
depends on its text only.** -/
theorem wholeTokens_spec (line : Bytes) :
    ((∀ fields fields', LineReads line fields → LineReads line fields' → fields = fields') ↔
      Skipped line ∨ WholeTokens line) ∧
    (Skipped line ∨ WholeTokens line → ∀ env kernel, LineOnly env kernel line) := by
  have hone : (∀ fields fields', LineReads line fields → LineReads line fields' → fields = fields') ↔
      Skipped line ∨ WholeTokens line := by
    by_cases hskip : Skipped line
    · exact iff_of_true (fun _ _ h => absurd hskip h.1) (.inl hskip)
    · obtain ⟨ptr, saved, hsplit, hwhole⟩ := split_of_not_skipped hskip
      rw [or_iff_right hskip, ← hwhole]
      constructor
      · intro h
        by_contra hnone
        obtain ⟨fields, fields', hreads, hreads', hne⟩ :=
          exists_readsFields_ne (Option.not_isSome_iff_eq_none.mp hnone)
        exact hne (cons.inj (h _ _ ⟨hskip, ptr, saved, fields, hsplit, hreads, rfl⟩
          ⟨hskip, ptr, saved, fields', hsplit, hreads', rfl⟩)).2
      · intro h
        obtain ⟨fs, hfs⟩ := Option.isSome_iff_exists.mp h
        have heq : ∀ fields, LineReads line fields → fields = ptr :: fs := by
          rintro _ ⟨-, ptr', saved', later, hsplit', hreads, rfl⟩
          obtain ⟨⟨⟩, rfl⟩ := Prod.mk.inj (hsplit.symm.trans hsplit')
          rw [hreads.eq_of_takeFields hfs]
        exact fun fields fields' hreads hreads' => (heq _ hreads).trans (heq _ hreads').symm
  refine ⟨hone, fun h env kernel earlier earlier' fields fields' hreads hreads' => ?_⟩
  rw [hone.mpr h fields fields' hreads hreads']
  exact sentAfter_eq env kernel earlier earlier' fields'

/-- `-w /etc/passwd -k foo`, and a byte 7. -/
def markedLine : Bytes := ascii "-w /etc/passwd -k foo" ++ [7]

theorem markedLine_reads {b : Bytes} (hb : Unmarked b) :
    LineReads markedLine [ascii "-w", ascii "/etc/passwd", ascii "-k", ascii "foo " ++ b] := by
  have hpath : auditStrsplit (ascii "/etc/passwd -k foo" ++ [7]) =
      (some (ascii "/etc/passwd"), some (ascii "-k foo" ++ [7])) := by decide
  have hopt : auditStrsplit (ascii "-k foo" ++ [7]) =
      (some (ascii "-k"), some (ascii "foo" ++ [7])) := by decide
  have hkey : auditStrsplit (ascii "foo" ++ [7]) = (some (ascii "foo" ++ [7]), none) := by decide
  have hlast : ReadsFields 5 (some (ascii "foo" ++ [7])) [ascii "foo " ++ b] :=
    .behind b hkey (by decide) hb (.last 3)
  have hfirst : postprocess (ascii "/etc/passwd") = some (ascii "/etc/passwd") := by decide
  have hsecond : postprocess (ascii "-k") = some (ascii "-k") := by decide
  exact ⟨by decide, ascii "-w", some (ascii "/etc/passwd -k foo" ++ [7]), _, by decide,
    .token hpath hfirst (.token hopt hsecond hlast), rfl⟩

/-- The strings of the rules that are sent. -/
def ruleStrings (sent : List Request) : List Bytes :=
  sent.filterMap fun
    | .addRule r => some r.buf
    | _ => none

/-- The key of this line is `foo`, a blank, and whatever is in memory behind it. -/
theorem not_lineOnly_marked : ¬ LineOnly namelessEnv agreeable markedLine := by
  intro h
  have hsame := congrArg ruleStrings (h [] [] _ _ (markedLine_reads (b := []) (by decide))
    (markedLine_reads (b := ascii "x") (by decide)))
  exact absurd hsame (by decide +kernel)

end LibAudit.Rules
