import LibAudit.Lib.Chain
import LibAudit.Lib.CString
import Mathlib.Data.List.Infix

/-!
# Sessions of users: `aulast`

`aulast` goes through the events of the logs and keeps a list of the sessions that are open.  A `LOGIN`
record opens one, `USER_LOGIN` confirms it, `USER_END` closes it.  A system boot closes them all and puts
a record of its own on the list, which a shutdown is meant to close.  A session is reported when it is
closed, and if it is still open at the end.

An event is modelled by what `auparse` finds in its record; what is printed about a session is its node
at that moment.  `origin`, the number of the event that a node was made for, is not in the source.
-/

namespace LibAudit.Aulast

/-- `status_t`. -/
inductive Status where
  | logIn | sessionStart | logOut | down | crash | gone
  deriving DecidableEq

/-- `lnode`. -/
structure Node where
  session : Int
  start : Int
  stop : Int
  auid : Int
  pid : Int
  name : Option Bytes
  term : Option Bytes
  host : Option Bytes
  result : Int
  status : Status
  loginuidProof : Nat
  userLoginProof : Nat
  userEndProof : Nat
  /-- The event that the node was made for. -/
  origin : Nat
  deriving DecidableEq

/-- The fields of a `LOGIN` record: the process, the second `auid` with its interpretation, and the
second `ses`. -/
structure Login where
  pid : Option Int
  auid : Option Int
  acct : Option Bytes
  ses : Option Int
  deriving DecidableEq

/-- The fields of a `USER_LOGIN` record; `uid` is the second `uid`, or else `id`. -/
structure UserLogin where
  pid : Option Int
  ses : Option Int
  uid : Option Int
  hostname : Option Bytes
  addr : Option Bytes
  terminal : Option Bytes
  /-- The interpretation of `res`. -/
  res : Option Bytes
  acct : Option Bytes
  deriving DecidableEq

/-- The fields of a `USER_END` record. -/
structure UserEnd where
  pid : Option Int
  auid : Option Int
  ses : Option Int
  deriving DecidableEq

/-- The types that are looked at. -/
inductive Kind where
  | login (r : Login)
  | userLogin (r : UserLogin)
  | userEnd (r : UserEnd)
  | systemBoot
  | systemShutdown
  | daemonStart (kernel : Option Bytes)
  | other
  deriving DecidableEq

/-- An event of one record. -/
structure Event where
  kind : Kind
  time : Int
  serial : Nat
  deriving DecidableEq

/-- The command line. -/
structure Options where
  bad : Bool
  user : Option Bytes
  cterm : Option Bytes

/-- Nothing is asked for in particular. -/
def Options.default : Options := ⟨false, none, none⟩

/-- The static variables, and what was printed. -/
structure State where
  list : Chain Node
  kernel : Option Bytes
  reports : List Node
  /-- The number of events so far. -/
  index : Nat

/-- `report_session`. -/
def reportSession (opts : Options) (n : Node) (s : State) : State :=
  if n.result = (if opts.bad then 1 else 0) then { s with reports := s.reports ++ [n] } else s

/-- `list_find_session`. -/
def findSession (l : Chain Node) (session : Int) : Option (Chain Node) :=
  l.find fun n => n.session = session

/-- `list_find_auid`. -/
def findAuid (l : Chain Node) (auid pid session : Int) : Option (Chain Node) :=
  l.find fun n => n.pid = pid ∧ n.auid = auid ∧ n.session = session

/-- The current node is closed, reported and deleted. -/
def closeCur (opts : Options) (f : Node → Node) (l : Chain Node) (s : State) : State :=
  match l.getCur with
  | none => s
  | some n => { reportSession opts (f n) s with list := l.deleteCur }

/-- A session whose number is used again. -/
def gone (e : Event) (n : Node) : Node := { n with status := .gone, stop := e.time }

/-- The node for a session. -/
def loginNode (e : Event) (r : Login) (index : Nat) : Node where
  session := r.ses.getD (-1)
  start := e.time
  stop := 0
  auid := r.auid.getD (-1)
  pid := r.pid.getD (-1)
  name := r.acct
  term := none
  host := none
  result := -1
  status := .logIn
  loginuidProof := e.serial
  userLoginProof := 0
  userEndProof := 0
  origin := index

/-- `create_new_session`. -/
def createNewSession (opts : Options) (e : Event) (r : Login) (s : State) : State :=
  if r.pid.getD (-1) = -1 ∨ r.auid.getD (-1) = -1 ∨ r.ses.getD (-1) = -1 then s
  else
    let s := match findSession s.list (r.ses.getD (-1)) with
      | some l => closeCur opts (gone e) l s
      | none => s
    if opts.user.isSome ∧ opts.user ≠ r.acct then s
    else { s with list := s.list.append (loginNode e r s.index) }

/-- The result of a login: 0 if it succeeded, 1 if it failed. -/
def UserLogin.result (r : UserLogin) : Int :=
  match r.res with
  | none => -1
  | some text => if text = ascii "success" then 0 else 1

/-- `host`: the address, if the host has no name. -/
def UserLogin.host (r : UserLogin) : Option Bytes :=
  if r.hostname = some (ascii "?") then r.addr else r.hostname

/-- `term`. -/
def UserLogin.term (r : UserLogin) : Bytes := r.terminal.getD (ascii "?")

/-- `list_update_start`. -/
def updateStart (r : UserLogin) (serial : Nat) (n : Node) : Node :=
  { n with
    status := .sessionStart
    term := some r.term
    host := r.host.or n.host
    result := r.result
    userLoginProof := serial }

/-- A record for a login that failed; it is not put on the list. -/
def badLogin (e : Event) (r : UserLogin) (index : Nat) : Node where
  session := 0
  start := e.time
  stop := e.time
  auid := r.uid.getD (-1)
  pid := 0
  name := r.acct
  term := some r.term
  host := r.host
  result := r.result
  status := .logOut
  loginuidProof := 0
  userLoginProof := e.serial
  userEndProof := 0
  origin := index

/-- `update_session_login`. -/
def updateSessionLogin (opts : Options) (e : Event) (r : UserLogin) (s : State) : State :=
  let pid := r.pid.getD (-1)
  let uid := r.uid.getD (-1)
  let ses := r.ses.getD (-1)
  if r.result ≠ 1 ∧ (pid = -1 ∨ uid = -1 ∨ ses = -1) then s
  else match if r.result = 0 then findAuid s.list uid pid ses else none with
    | some l =>
      if opts.cterm.any (fun t => ¬ t <:+: r.term) then { s with list := l.deleteCur }
      else { s with list := l.update (updateStart r e.serial) }
    | none =>
      if opts.bad = true ∧ r.result = 1 then reportSession opts (badLogin e r s.index) s else s

/-- `list_update_logout`. -/
def updateLogout (e : Event) (n : Node) : Node :=
  { n with stop := e.time, status := .logOut, userEndProof := e.serial }

/-- `update_session_logout`. -/
def updateSessionLogout (opts : Options) (e : Event) (r : UserEnd) (s : State) : State :=
  let pid := r.pid.getD (-1)
  let auid := r.auid.getD (-1)
  let ses := r.ses.getD (-1)
  if pid = -1 ∨ auid = -1 ∨ ses = -1 then s
  else match findAuid s.list auid pid ses with
    | none => s
    | some l =>
      -- a session without a time is a cron or su session
      if l.getCur.any (fun n => n.start ≠ 0) then closeCur opts (updateLogout e) l s
      else { s with list := l.deleteCur }

/-- The first loop of `process_bootup`: what has a name has crashed. -/
def crashed (e : Event) (n : Node) : Node :=
  if n.name.isSome then { n with userEndProof := e.serial, status := .crash, stop := e.time } else n

/-- The second loop: everyone else went down. -/
def wentDown (e : Event) (n : Node) : Node :=
  if n.status ≠ .crash then { n with userEndProof := e.serial, status := .down, stop := e.time } else n

/-- The record of a boot.  Its time goes through an `int`. -/
def bootNode (e : Event) (kernel : Option Bytes) (index : Nat) : Node where
  session := 0
  start := (Int32.ofInt e.time).toInt
  stop := 0
  auid := 0
  pid := 0
  name := some (ascii "reboot")
  term := some (ascii "system boot")
  host := kernel
  result := 0
  status := .logIn
  loginuidProof := e.serial
  userLoginProof := 0
  userEndProof := 0
  origin := index

/-- `process_bootup`. -/
def processBootup (opts : Options) (e : Event) (s : State) : State :=
  let nodes := s.list.nodes
  let s := (nodes.filter (·.name.isSome)).foldl (fun s n => reportSession opts (crashed e n) s) s
  let nodes := nodes.map (crashed e)
  let s := (nodes.filter (·.status ≠ .crash)).foldl (fun s n => reportSession opts (wentDown e n) s) s
  { s with list := Chain.empty.append (bootNode e s.kernel s.index) }

/-- `process_shutdown`: the first node with a name is taken for the record of the boot.  If there is
none the cursor has left the list. -/
def processShutdown (opts : Options) (e : Event) (s : State) : State :=
  match s.list.find (·.name.isSome) with
  | some l => closeCur opts (updateLogout e) l s
  | none => { s with list := { s.list with cur := none } }

/-- `process_kernel`. -/
def processKernel (kernel : Option Bytes) (s : State) : State :=
  { s with kernel := kernel.or s.kernel }

/-- One round of the loop of `main`. -/
def handle (opts : Options) (s : State) (e : Event) : State :=
  let s' := match e.kind with
    | .login r => createNewSession opts e r s
    | .userLogin r => updateSessionLogin opts e r s
    | .userEnd r => updateSessionLogout opts e r s
    | .systemBoot => processBootup opts e s
    | .systemShutdown => processShutdown opts e s
    | .daemonStart kernel => processKernel kernel s
    | .other => s
  { s' with index := s.index + 1 }

/-- The loop of `main`. -/
def run (opts : Options) (es : List Event) : State :=
  es.foldl (handle opts) ⟨.empty, none, [], 0⟩

theorem run_snoc (opts : Options) (es : List Event) (e : Event) :
    run opts (es ++ [e]) = handle opts (run opts es) e := by
  rw [run, List.foldl_append]
  rfl

/-- All that is printed: the leftovers come last. -/
def aulast (opts : Options) (es : List Event) : List Node :=
  let s := run opts es
  (s.list.nodes.foldl (fun s n => reportSession opts n s) s).reports

/-! ## What is reported -/

/-- The nodes that `report_session` prints. -/
def shown (opts : Options) (n : Node) : Bool := n.result = if opts.bad then 1 else 0

theorem reportSession_eq (opts : Options) (n : Node) (s : State) :
    reportSession opts n s = { s with reports := s.reports ++ [n].filter (shown opts) } := by
  by_cases h : n.result = if opts.bad then 1 else 0
  · rw [reportSession, if_pos h]
    simp [shown, h]
  · rw [reportSession, if_neg h]
    simp [shown, h]

theorem closeCur_eq (opts : Options) (f : Node → Node) (s : State) {i : Nat}
    (h : i < s.list.nodes.length) :
    closeCur opts f ⟨s.list.nodes, [], some i⟩ s = { s with
      list := (⟨s.list.nodes, [], some i⟩ : Chain Node).deleteCur
      reports := s.reports ++ [f s.list.nodes[i]].filter (shown opts) } := by
  have hcur : (⟨s.list.nodes, [], some i⟩ : Chain Node).getCur = some s.list.nodes[i] := by
    simp [Chain.getCur, h]
  rw [closeCur, hcur]
  dsimp only
  rw [reportSession_eq]

/-- All nodes of a list are reported, one after the other. -/
theorem foldl_report (opts : Options) (f : Node → Node) (ns : List Node) (s : State) :
    ns.foldl (fun s n => reportSession opts (f n) s) s =
      { s with reports := s.reports ++ (ns.map f).filter (shown opts) } := by
  induction ns generalizing s with
  | nil => simp
  | cons n ns ih =>
    rw [List.foldl_cons, ih, reportSession_eq, List.map_cons, List.filter_cons]
    cases h : shown opts (f n) <;> simp [h]

/-! ## Boots -/

/-- The `i`-th event is a boot. -/
def bootAt (es : List Event) (i : Nat) : Bool := (es[i]?).any (·.kind = .systemBoot)

theorem bootAt_eq_true_iff {es : List Event} {i : Nat} :
    bootAt es i = true ↔ ∃ e, es[i]? = some e ∧ e.kind = .systemBoot := by
  simp [bootAt, Option.any_eq_true]

theorem bootAt_snoc {es : List Event} {e : Event} {i : Nat} (h : i < es.length) :
    bootAt (es ++ [e]) i = bootAt es i := by
  rw [bootAt, bootAt, List.getElem?_append_left h]

theorem bootAt_last {es : List Event} {e : Event} :
    bootAt (es ++ [e]) es.length = decide (e.kind = .systemBoot) := by
  rw [bootAt, List.getElem?_concat_length, Option.any_some]

end LibAudit.Aulast
