import LibAudit.Lib.TwoRuns
import LibAudit.Rules.Setopt

/-!
# What options can do

The options of `auditctl` are programs made of a few steps: variables are read and set, functions of the
library are called, and requests are sent.  `Built` says so, and `option_built` goes through all the
options once.  What holds of the steps then holds of every option.

* `Built.alike`: the variables that `setopt` neither reads nor needs, `interpret` and those for errors in
  rules files, make no difference (`Ctl.view` is without them).
* `Built.leaves`: an option that is quiet leaves the keys as they are, and keeps the invariant of the
  rule.
-/

namespace LibAudit.Rules

open Getopt Hoare List

/-! ## Steps -/

/-- How a call of the library ends. -/
theorem call_ends {m : BuildM Unit} {g : Ctl} {Q : Bool → Ctl → Prop} {E : Int → Ctl → Prop}
    (hok : ∀ b, m g.builder = .ok () b → Q true { g with builder := b })
    (herror : ∀ e b, m g.builder = .error e b → Q false { g with builder := b }) :
    Triple (· = g) (call m) Q E := by
  rintro g rfl
  rw [call]
  cases hm : m g.builder with
  | ok u b => exact hok b hm
  | error e b => exact herror e b hm

/-- The variables that matter for a rule. -/
def Ctl.view (g : Ctl) : Ctl := { g with interpret := false, ignore := false, continueError := false }

/-- The variables for keys are the same, and the rule is still laid out well. -/
structure Quiet (g g' : Ctl) : Prop where
  key : g'.key = g.key
  keylen : g'.keylen = g.keylen
  listRequested : g'.listRequested = g.listRequested
  inv : Inv g.builder → Inv g'.builder

theorem Quiet.refl (g : Ctl) : Quiet g g := ⟨rfl, rfl, rfl, id⟩

theorem Quiet.trans {g g' g'' : Ctl} (h : Quiet g g') (h' : Quiet g' g'') : Quiet g g'' :=
  ⟨h'.key.trans h.key, h'.keylen.trans h.keylen, h'.listRequested.trans h.listRequested,
    fun hinv => h'.inv (h.inv hinv)⟩

/-- A program that is made of steps.  In one that is `quiet`, each of them is. -/
inductive Built (quiet : Bool) : {α : Type} → CtlM α → Prop
  | pure {α : Type} (a : α) : Built quiet (Pure.pure a : CtlM α)
  | throw {α : Type} (e : Int) : Built quiet (MonadExcept.throw e : CtlM α)
  | bind {α β : Type} {m : CtlM α} {f : α → CtlM β} (hm : Built quiet m)
      (hf : ∀ a, Built quiet (f a)) : Built quiet (m >>= f)
  | read {α : Type} {f : Ctl → CtlM α} (hview : ∀ g, f g = f g.view) (hf : ∀ g, Built quiet (f g)) :
      Built quiet (MonadState.get >>= f)
  | modify {f : Ctl → Ctl} (hview : ∀ g, (f g).view = (f g.view).view)
      (hfd : ∀ g, (f g).fd = true → g.fd = true)
      (hquiet : quiet = true → ∀ g, Quiet g (f g)) : Built quiet (modify f : CtlM PUnit)
  | call {m : BuildM Unit} (hquiet : quiet = true → Keeps m) : Built quiet (call m)

namespace Built

variable {quiet : Bool} {α : Type}

variable {m : CtlM α}

theorem ite {c : Prop} [Decidable c] {m' : CtlM α} (h : c → Built quiet m)
    (h' : ¬ c → Built quiet m') : Built quiet (if c then m else m') := by
  split
  · rename_i hc
    exact h hc
  · rename_i hc
    exact h' hc

theorem note (f : Given → Given) : Built quiet (note f) :=
  .modify (fun _ => rfl) (fun _ => id) fun _ _ => ⟨rfl, rfl, rfl, fun h => ⟨h.1, h.2⟩⟩

theorem request (kernel : Kernel) (r : Request) : Built quiet (request kernel r) :=
  .bind (.modify (fun _ => rfl) (fun _ => id) fun _ _ => ⟨rfl, rfl, rfl, id⟩) fun _ => .pure _

/-- **Variables that are not seen make no difference.** -/
theorem alike (h : Built quiet m) : Alike (fun g g' => g.view = g'.view) m m := by
  induction h with
  | pure a => exact .pure a
  | throw e => exact .throw e
  | bind _ _ ihm ihf => exact ihm.bind ihf
  | read hview _ ihf =>
    refine .read fun g g' hg => ?_
    rw [hview g, hg, ← hview g']
    exact ihf g'
  | modify hview _ _ =>
    refine .modify fun g g' hg => ?_
    rw [hview g, hg, ← hview g']
  | @call m _ =>
    intro g g' hg
    have hb : g.view.builder = g'.view.builder := congrArg Ctl.builder hg
    have hb' : g.builder = g'.builder := hb
    rw [Rules.call, Rules.call, hb']
    cases m g'.builder with
    | ok u b => exact ⟨rfl, congrArg (fun g : Ctl => { g with builder := b }) hg⟩
    | error e b => exact ⟨rfl, congrArg (fun g : Ctl => { g with builder := b }) hg⟩

/-- The socket is not opened. -/
theorem closed (h : Built quiet m) (c : Prop) :
    Triple (fun g => g.fd = true → c) m (fun _ g => g.fd = true → c) fun _ g => g.fd = true → c := by
  induction h with
  | pure a => exact .pure a fun _ => id
  | throw e => exact .throw e fun _ => id
  | bind _ _ ihm ihf => exact ihm.bind ihf
  | read _ _ ihf => exact .read fun g _ => ihf g
  | modify _ hfd _ => exact .modify fun g hg h => hg (hfd g h)
  | @call m _ =>
    intro g hg
    rw [Rules.call]
    cases m g.builder with
    | ok u b => exact hg
    | error e b => exact hg

/-- **A quiet program changes nothing about keys.** -/
theorem leaves (h : Built true m) (g : Ctl) :
    Triple (Quiet g) m (fun _ => Quiet g) fun _ => Quiet g := by
  induction h with
  | pure a => exact .pure a fun _ => id
  | throw e => exact .throw e fun _ => id
  | bind _ _ ihm ihf => exact ihm.bind ihf
  | read _ _ ihf => exact .read fun g' _ => ihf g'
  | modify _ _ hquiet => exact .modify fun g' hg => hg.trans (hquiet rfl g')
  | @call m hquiet =>
    intro g' hg
    rw [Rules.call]
    have hkeeps : Inv g.builder → _ := fun hinv => hquiet rfl g'.builder (hg.inv hinv)
    cases hm : m g'.builder with
    | ok u b =>
      rw [hm] at hkeeps
      exact ⟨hg.key, hg.keylen, hg.listRequested, hkeeps⟩
    | error e b =>
      rw [hm] at hkeeps
      exact ⟨hg.key, hg.keylen, hg.listRequested, hkeeps⟩

end Built

/-! ## Options that build the rule -/

section Options

variable {quiet : Bool}

theorem setFilter_built (t : Target) (list : FilterList) :
    Built quiet (modify (t.setFilter list) : CtlM PUnit) := by
  cases t <;> cases list <;> exact .modify (fun _ => rfl) (fun _ => id) fun _ _ => ⟨rfl, rfl, rfl, id⟩

theorem setAction_built (act : Action) :
    Built quiet (modify fun g => { g with action := some act } : CtlM PUnit) :=
  .modify (fun _ => rfl) (fun _ => id) fun _ _ => ⟨rfl, rfl, rfl, id⟩

theorem setupFirst_built (t : Target) (opt : Bytes) : Built quiet (setupFirst t opt) := by
  rw [setupFirst]
  cases lookupFilter opt with
  | some list => exact .bind (setFilter_built t list) fun _ => .pure _
  | none =>
    cases lookupAction opt with
    | error rc => exact .pure _
    | ok act => exact .bind (setAction_built act) fun _ => .pure _

theorem setupSecond_built (t : Target) (opt : Bytes) : Built quiet (setupSecond t opt) := by
  refine .read (fun g => by cases t <;> rfl) fun g => .ite (fun _ => ?_) fun _ => ?_
  · cases lookupFilter opt with
    | some list => exact .bind (setFilter_built t list) fun _ => .pure _
    | none => exact .pure _
  · cases lookupAction opt with
    | error rc => exact .pure _
    | ok act => exact .bind (setAction_built act) fun _ => .pure _

theorem auditRuleSetup_built (t : Target) (opt : Bytes) : Built quiet (auditRuleSetup t opt) := by
  refine .bind (.modify (fun _ => rfl) (fun _ => id) fun _ _ => ⟨rfl, rfl, rfl, id⟩) fun _ =>
    .read (fun _ => rfl) fun g => .ite (fun _ => .pure _) fun _ => .ite (fun _ => .pure _) fun _ => ?_
  refine .bind (setupFirst_built t _) fun rc => .ite (fun _ => .pure _) fun _ => ?_
  refine .bind (setupSecond_built t _) fun rc => .ite (fun _ => .pure _) fun _ => ?_
  exact .read (fun g => by cases t <;> rfl) fun g => .ite (fun _ => .pure _) fun _ => .pure _

theorem listOption_built (t : Target) (testsTask prepends : Bool) (arg : Bytes) :
    Built quiet (listOption t testsTask prepends arg) := by
  refine .read (fun _ => rfl) fun g => .ite (fun _ => .pure _) fun _ => ?_
  refine .bind (auditRuleSetup_built t arg) fun rc => .ite (fun _ => .throw _) fun _ =>
    .ite (fun _ => .pure _) fun _ => ?_
  exact .ite
    (fun _ => .bind (.modify (fun _ => rfl) (fun _ => id) fun _ _ => ⟨rfl, rfl, rfl, id⟩) fun _ => .pure _)
    fun _ => .pure _

theorem parseSyscallData_keeps (env : Env) (arg : Bytes) : Keeps (parseSyscallData env arg) := by
  rw [parseSyscallData]
  refine .ite (fun _ => ?_) fun _ => auditRuleSyscallbynameData_keeps env _
  induction words 44 arg with
  | nil => exact .pure _ fun _ => id
  | cons scall scalls ih => exact (auditRuleSyscallbynameData_keeps env _).bind fun _ => ih

theorem detectElf_built (env : Env) : Built quiet (detectElf env) := by
  refine .read (fun _ => rfl) fun g => .ite (fun _ => ?_) fun _ => .pure _
  cases env.detectMachine with
  | none => exact .throw _
  | some machine => exact .note _

theorem syscallOption_built (env : Env) (retval : Int) (arg : Bytes) :
    Built quiet (syscallOption env retval arg) := by
  refine .read (fun _ => rfl) fun g => .ite (fun _ => .throw _) fun _ => .ite (fun _ => .throw _) fun _ =>
    .ite (fun _ => .throw _) fun _ => .ite (fun _ => .throw _) fun _ => ?_
  exact .bind (detectElf_built env) fun _ =>
    .bind (.call fun _ => parseSyscallData_keeps env arg) fun _ =>
    .ite (fun _ => .bind (.note _) fun _ => .pure _) fun _ => .pure _

theorem processKeys_built (retval : Int) (arg : Bytes) : Built false (processKeys retval arg) := by
  refine .read (fun _ => rfl) fun g => .ite (fun _ => .pure _) fun _ => ?_
  refine .bind (.modify (fun g => ?_) (fun g h => ?_) fun h => by cases h) fun _ => .pure _
  · have hview : g.view.key = g.key := rfl
    rw [Ctl.catKey, Ctl.catKey, hview]
    split <;> rfl
  · rw [Ctl.catKey] at h
    split at h <;> exact h

theorem noteField_built : Built quiet noteField :=
  .read (fun _ => rfl) fun _ => .ite (fun _ => .note _) fun _ => .ite (fun _ => .note _) fun _ => .pure _

theorem notePerm_built : Built quiet notePerm :=
  .read (fun _ => rfl) fun _ => .ite (fun _ => .note _) fun _ => .pure _

/-- The part of `-F` that is not about keys. -/
theorem addField_built (env : Env) (retval : Int) {arg : Bytes} (flags : FilterList)
    (h : quiet = true → arg.length < 2 ^ 31) :
    Built quiet (do
      let ok ← call (auditRuleFieldpairData env (cstr arg) flags enough)
      if ok then do
        noteField
        pure retval
      else pure (-1)) := by
  refine .bind (.call fun hquiet => auditRuleFieldpairData_keeps env ?_ flags enough) fun ok =>
    .ite (fun _ => .bind noteField_built fun _ => .pure _) fun _ => .pure _
  exact Nat.lt_of_le_of_lt (List.takeWhile_prefix _).length_le (h hquiet)

theorem compareOption_built (retval : Int) (arg : Bytes) : Built quiet (compareOption retval arg) :=
  .read (fun _ => rfl) fun g => .bind (.call fun _ => auditRuleInterfieldCompData_keeps _ g.flags) fun _ =>
    .ite (fun _ => .bind notePerm_built fun _ => .pure _) fun _ => .pure _

/-! ## Watches -/

theorem length_stripSlashes_le (path : Bytes) : (stripSlashes path).length ≤ path.length := by
  rw [stripSlashes]
  split
  · exact length_take_le' _ _
  · rw [length_reverse]
    exact (dropWhile_sublist _).length_le.trans_eq length_reverse

theorem auditSetupWatchName_built (env : Env) (path : Bytes) :
    Built quiet (auditSetupWatchName env path) := by
  rw [auditSetupWatchName]
  refine .ite (fun _ => .pure _) fun hpath => .bind (.call fun _ => auditAddWatchDir_keeps _ ?_ _) fun _ =>
    .ite (fun _ => .pure _) fun _ => .pure _
  have hlt : path.length < pathMax := by
    rw [Bool.not_eq_false, checkPath, Bool.and_eq_true, Bool.and_eq_true] at hpath
    exact of_decide_eq_true hpath.1.1
  have hle : (cstr (if 2 < path.length ∧ path.getLast? = some 47 then stripSlashes path
      else path)).strlen ≤ path.length := by
    refine (List.takeWhile_prefix _).length_le.trans ?_
    split
    · exact length_stripSlashes_le path
    · exact Nat.le_refl _
  have hmax : pathMax + 61 * pathMax < 2 ^ 31 := by decide
  omega

theorem watchOption_built (env : Env) (arg : Bytes) : Built quiet (watchOption env arg) :=
  .read (fun _ => rfl) fun _ => .ite (fun _ => .pure _) fun _ =>
    .bind (.modify (fun _ => rfl) (fun _ => id) fun _ _ => ⟨rfl, rfl, rfl, id⟩) fun _ =>
    .bind (.note _) fun _ => auditSetupWatchName_built env arg

theorem unwatchOption_built (env : Env) (arg : Bytes) : Built quiet (unwatchOption env arg) :=
  .bind (.modify (fun _ => rfl) (fun _ => id) fun _ _ => ⟨rfl, rfl, rfl, id⟩) fun _ =>
    .bind (.note _) fun _ => auditSetupWatchName_built env arg

theorem permsOption_built (arg : Bytes) : Built quiet (permsOption arg) := by
  refine .read (fun _ => rfl) fun g => .ite (fun _ => .pure _) fun _ => ?_
  rw [auditSetupPerms]
  refine .ite (fun _ => .pure _) fun _ => ?_
  cases permBits arg with
  | none => exact .pure _
  | some val =>
    exact .bind (.call fun _ => auditUpdateWatchPerms_keeps val) fun _ =>
      .ite (fun _ => .bind (.note _) fun _ => .pure _) fun _ => .pure _

/-! ## Other options -/

variable (kernel : Kernel)

theorem flagOption_built (returns : Bool) (r : Bytes → Request) (retval : Int) (arg : Bytes) :
    Built quiet (flagOption kernel returns r retval arg) :=
  .ite (fun _ => .bind (.request kernel _) fun _ => .ite (fun _ => .pure _) fun _ =>
    .ite (fun _ => .throw _) fun _ => .pure _) fun _ => .pure _

theorem numberOption_built (r : UInt32 → Request) (retval : Int) (arg : Bytes) :
    Built quiet (numberOption kernel r retval arg) := by
  refine .ite (fun _ => ?_) fun _ => .pure _
  cases strtoulIn 0 arg with
  | none => exact .throw _
  | some value =>
    exact .bind (.request kernel _) fun _ => .ite (fun _ => .pure _) fun _ => .throw _

theorem simpleOption_built (agrees : Int → Bool) (r : Request) :
    Built quiet (simpleOption kernel agrees r) :=
  .bind (.request kernel r) fun _ => .ite (fun _ => .throw _) fun _ => .pure _

theorem reportStatus_built : Built quiet (reportStatus kernel) :=
  .bind (.request kernel _) fun _ => .ite (fun _ => .pure _) fun _ =>
    .bind (.request kernel _) fun _ => .ite (fun _ => .pure _) fun _ => .pure _

theorem setInterpret_built : Built quiet
    (modify fun g => { g with interpret := true, count := g.count - 1 } : CtlM PUnit) :=
  .modify (fun _ => rfl) (fun _ => id) fun _ _ => ⟨rfl, rfl, rfl, id⟩

theorem statusOption_built (optind : Nat) (next : Option Bytes) :
    Built quiet (statusOption kernel optind next) :=
  .read (fun _ => rfl) fun _ => .ite (fun _ => .pure _) fun _ =>
    .ite (fun _ => .ite (fun _ => .bind setInterpret_built fun _ => reportStatus_built kernel)
      fun _ => .pure _) fun _ => reportStatus_built kernel

theorem auditRequestRuleList_built : Built false (auditRequestRuleList kernel) :=
  .bind (.request kernel _) fun _ => .ite (fun _ =>
    .bind (.modify (fun _ => rfl) (fun _ => id) fun h => by cases h) fun _ => .pure _) fun _ => .pure _

theorem listRules_built : Built false (listRules kernel) :=
  .bind (auditRequestRuleList_built kernel) fun _ => .ite (fun _ => .pure _) fun _ => .pure _

theorem thirdKey_built (third : Bytes) : Built false (thirdKey third) :=
  .modify (fun _ => rfl) (fun _ => id) fun h => by cases h

theorem listRulesOption_built (next : Option Bytes) (third : Bytes) :
    Built false (listRulesOption kernel next third) :=
  .read (fun _ => rfl) fun _ => .ite (fun _ => .pure _) fun _ =>
    .ite (fun _ => .ite (fun _ => .bind setInterpret_built fun _ => listRules_built kernel)
      fun _ => .pure _) fun _ =>
    .ite (fun _ => .ite (fun _ => .bind (thirdKey_built third) fun _ => listRules_built kernel)
      fun _ => .pure _) fun _ => listRules_built kernel

theorem deleteAllRules_built : Built false (deleteAllRules kernel) :=
  .read (fun _ => rfl) fun _ => .bind (.request kernel _) fun _ =>
    .ite (fun _ => .bind (auditRequestRuleList_built kernel) fun _ =>
      .bind (.modify (fun _ => rfl) (fun _ => id) fun h => by cases h) fun _ => .pure _) fun _ => .pure _

theorem deleteAllOption_built (next : Option Bytes) (third : Bytes) :
    Built false (deleteAllOption kernel next third) :=
  .read (fun _ => rfl) fun _ => .ite (fun _ => .pure _) fun _ =>
    .ite (fun _ => .ite (fun _ => .bind (thirdKey_built third) fun _ => deleteAllRules_built kernel)
      fun _ => .pure _) fun _ => deleteAllRules_built kernel

theorem messageOption_built (arg : Bytes) : Built quiet (messageOption kernel arg) :=
  .read (fun _ => rfl) fun _ => .ite (fun _ => .pure _) fun _ => .ite (fun _ => .throw _) fun _ =>
    simpleOption_built kernel _ _

theorem equivalentOption_built (arg : Bytes) : Built quiet (equivalentOption kernel arg) :=
  .read (fun _ => rfl) fun _ => .ite (fun _ => .pure _) fun _ => .ite (fun _ => .pure _) fun _ =>
    simpleOption_built kernel _ _

theorem sendSignal_built (arg : Bytes) : Built quiet (sendSignal kernel arg) :=
  .ite (fun _ => .bind (.request kernel _) fun _ => .ite (fun _ => .pure _) fun _ => .pure _)
    fun _ => .pure _

/-! ## All options -/

/-- The options that are about keys, or about the rules that there are. -/
def loudOption (ev : Event CtlOpt) : Bool :=
  match ev.opt with
  | some .key | some .list | some .deleteAll => true
  | some .field => (ascii "key=").isPrefixOf ev.arg
  | _ => false

/-- **What any option does.** -/
theorem option_built (env : Env) (vars : List Bytes) (retval : Int) (ev : Event CtlOpt)
    (hquiet : quiet = true → loudOption ev = false ∧ ev.arg.length < 2 ^ 31) :
    Built quiet (option env kernel vars retval ev) := by
  obtain ⟨opt, arg, optind⟩ := ev
  have hloud : loudOption ⟨opt, arg, optind⟩ = true → quiet = false := fun hloud => by simp_all
  rcases opt with _ | opt
  · exact .pure _
  cases opt with
  | help => exact .pure _
  | ignore | continueErrors =>
    exact .bind (.modify (fun _ => rfl) (fun _ => id) fun _ _ => ⟨rfl, rfl, rfl, id⟩) fun _ => .pure _
  | status => exact statusOption_built kernel _ _
  | list =>
    rw [hloud rfl]
    exact listRulesOption_built kernel _ _
  | deleteAll =>
    rw [hloud rfl]
    exact deleteAllOption_built kernel _ _
  | version => exact .pure _
  | trim => exact simpleOption_built kernel _ _
  | compare => exact compareOption_built retval arg
  | enabled => exact flagOption_built kernel _ _ retval arg
  | failure => exact flagOption_built kernel _ _ retval arg
  | rate => exact numberOption_built kernel _ retval arg
  | backlog => exact numberOption_built kernel _ retval arg
  | append => exact listOption_built _ _ _ arg
  | insert => exact listOption_built _ _ _ arg
  | delete => exact listOption_built _ _ _ arg
  | syscall => exact syscallOption_built env retval arg
  | field =>
    refine .read (fun _ => rfl) fun g => .ite (fun _ => .pure _) fun _ => .ite (fun hkey => ?_) fun _ =>
      addField_built env retval _ fun h => (hquiet h).2
    rw [hloud hkey]
    exact processKeys_built retval _
  | message => exact messageOption_built kernel arg
  | file => exact .pure _
  | watch => exact watchOption_built env arg
  | unwatch => exact unwatchOption_built env arg
  | key =>
    rw [hloud rfl]
    exact .read (fun _ => rfl) fun _ => .ite (fun _ => .pure _) fun _ => processKeys_built retval arg
  | perms => exact permsOption_built arg
  | equivalent => exact equivalentOption_built kernel arg
  | loginuidImmutable => exact simpleOption_built kernel _ _
  | backlogWaitTime => exact numberOption_built kernel _ retval arg
  | resetLost => exact simpleOption_built kernel _ _
  | resetBacklogWaitTimeActual => exact simpleOption_built kernel _ _
  | signal => exact sendSignal_built kernel arg

theorem optionLoop_built (env : Env) (vars : List Bytes) (last : Nat) (retval : Int)
    (evs : List (Event CtlOpt)) : Built false (optionLoop env kernel vars last retval evs) := by
  induction evs generalizing retval with
  | nil => exact .pure _
  | cons ev evs ih =>
    exact .bind (option_built kernel env vars retval ev fun h => by cases h) fun r =>
      .ite (fun _ => .pure _) fun _ => ih r

theorem addKey_built (env : Env) (retval : Int) : Built false (addKey env retval) :=
  .read (fun _ => rfl) fun _ => .ite (fun _ => .bind (.call fun h => by cases h) fun _ =>
    .ite (fun _ => .pure _) fun _ => .pure _) fun _ => .pure _

/-! ## Sending the rule -/

theorem allSyscalls_built (env : Env) (list : FilterList) : Built false (allSyscalls env list) :=
  .read (fun _ => rfl) fun _ => .ite (fun _ => .bind (.call fun h => by cases h) fun _ => .pure _)
    fun _ => .pure _

theorem sendRule_built (r : RuleData → Request) (flags : UInt32) :
    Built false (sendRule kernel r flags) := by
  refine .read (fun _ => rfl) fun g => ?_
  cases g.builder.rule with
  | none => exact .pure _
  | some rule =>
    exact .bind (.modify (fun _ => rfl) (fun _ => id) fun h => by cases h) fun _ => .request kernel _

theorem sendRetry_built (r : RuleData → Request) (flags : UInt32) :
    Built false (sendRetry kernel r flags) :=
  .bind (sendRule_built kernel r flags) fun _ => .read (fun _ => rfl) fun _ => .ite (fun _ =>
    .bind (.modify (fun _ => rfl) (fun _ => id) fun h => by cases h) fun _ =>
      sendRule_built kernel r flags) fun _ => .pure _

theorem handleRule_built (env : Env) : Built false (handleRule env kernel) := by
  refine .read (fun _ => rfl) fun g => ?_
  cases g.add with
  | some list => exact .bind (allSyscalls_built env list) fun _ => sendRetry_built kernel _ _
  | none =>
    cases g.del with
    | some list => exact .bind (allSyscalls_built env list) fun _ => sendRetry_built kernel _ _
    | none => exact .throw _

theorem closeFd_built (status : Int) : Built false (closeFd status) :=
  .bind (.modify (fun _ => rfl) (fun _ h => by cases h) fun h => by cases h) fun _ => .pure _

theorem handleRequest_built (env : Env) (status : Int) : Built false (handleRequest env kernel status) :=
  .read (fun _ => rfl) fun _ =>
    .ite (fun _ => .ite (fun _ => .pure _) fun _ => closeFd_built 0) fun _ =>
    .ite (fun _ => closeFd_built 0) fun _ =>
    .ite (fun _ => .bind (handleRule_built kernel env) fun _ =>
      .ite (fun _ => closeFd_built (-1)) fun _ => closeFd_built 0) fun _ => closeFd_built (-1)

end Options

end LibAudit.Rules
