import LibAudit.Lib.CString

/-!
# Guests of a host: `auvirt`

`auvirt` goes through the records about virtual machines and keeps one list of events, oldest first:
starts and stops of guests, machine-id records with their security level, resource assignments, denials
and anomalies.  An event that is over has an end time, and 0 stands for none.

A record is modelled by what `auparse` finds in it.  The proof of an event and the details of a denial
or of a control group, which are only printed, are left out.
-/

namespace LibAudit.Auvirt

/-- `enum event_type`. -/
inductive EventType where
  | start | stop | machineId | avc | res | anom
  deriving DecidableEq

/-- `struct event`; `stop` is its `end`. -/
structure Event where
  type : EventType
  start : Int
  stop : Int := 0
  user : Option Bytes
  uuid : Option Bytes
  name : Option Bytes
  success : Bool := false
  pid : Int := -1
  reason : Option Bytes := none
  resType : Option Bytes := none
  res : Option Bytes := none
  seclevel : Option Bytes := none
  deriving DecidableEq

/-- The fields that an anomaly is correlated by. -/
inductive AnomField where
  | pid (pid : Int)
  | subj (context : Bytes)
  deriving DecidableEq

/-- What a record is about, with the fields of its own; those of an anomaly are in their order. -/
inductive Kind where
  | machineId (vmCtx model : Option Bytes)
  | control (op : Option Bytes) (vmPid : Option Int)
  | resource (resrc reason old new cgroup : Option Bytes)
  | avc (scontext : Option Bytes)
  | anom (fields : List AnomField)
  | other

/-- A record, with the fields that `extract_virt_fields` and `filter_event` look for. -/
structure Record where
  kind : Kind
  time : Int
  /-- Whether there is a `uid`, and its interpretation. -/
  uid : Option (Option Bytes)
  /-- Whether there is a `vm`, and its interpretation. -/
  vm : Option (Option Bytes)
  uuid : Option Bytes
  /-- The result, `res`. -/
  result : Option Bytes

/-- The command line. -/
structure Options where
  startTime : Int
  endTime : Int
  vm : Option Bytes
  uuid : Option Bytes
  /-- `all_events_flag || summary_flag`. -/
  allEvents : Bool

/-- Nothing is filtered. -/
def Options.default : Options := ⟨0, 0, none, none, true⟩

/-- What `extract_virt_fields` extracts. -/
structure Virt where
  user : Option Bytes
  name : Option Bytes
  uuid : Bytes
  success : Bool
  time : Int

/-- `extract_virt_fields`. -/
def extractVirtFields (r : Record) : Option Virt := do
  let user ← r.uid
  let name ← r.vm
  let uuid ← r.uuid
  let result ← r.result
  return ⟨user, name, uuid, result = ascii "success", r.time⟩

/-- `get_seclevel`: what follows the third colon, `c` of them being passed. -/
def getSeclevel (c : Nat) : Bytes → Option Bytes
  | [] => none
  | b :: rest =>
    let c := if b = 58 then c + 1 else c
    if c = 3 then some rest else getSeclevel c rest

/-- `filter_event`: is the event wanted? -/
def wanted (opts : Options) (r : Record) : Bool :=
  (opts.startTime = 0 ∨ opts.startTime ≤ r.time) ∧ (opts.endTime = 0 ∨ r.time ≤ opts.endTime) ∧
    (∀ vm ∈ opts.vm, ∀ v ∈ r.vm.join, vm = v) ∧ ∀ uuid ∈ opts.uuid, ∀ u ∈ r.uuid, uuid = u

/-- A successful event of a guest. -/
def Event.IsOf (uuid : Bytes) (e : Event) : Prop := e.success = true ∧ e.uuid = some uuid

instance (uuid : Bytes) (e : Event) : Decidable (e.IsOf uuid) := inferInstanceAs (Decidable (_ ∧ _))

/-- An assignment of a resource to a guest that has not ended. -/
def Event.IsOpen (uuid : Bytes) (e : Event) : Prop := e.IsOf uuid ∧ e.type = .res ∧ e.stop = 0

instance (uuid : Bytes) (e : Event) : Decidable (e.IsOpen uuid) := inferInstanceAs (Decidable (_ ∧ _))

/-- An open assignment ends. -/
def Event.close (uuid : Bytes) (time : Int) (e : Event) : Event :=
  if e.IsOpen uuid then { e with stop := time } else e

/-- `process_machine_id_event`. -/
def processMachineIdEvent (r : Record) (vmCtx model : Option Bytes) (events : List Event) : List Event :=
  if model = some (ascii "dac") then events
  else match extractVirtFields r with
    | none => events
    | some v => events ++
      [{ type := .machineId, uuid := some v.uuid, name := v.name, success := v.success,
         seclevel := vmCtx.bind (getSeclevel 0), user := v.user, start := v.time }]

/-- The loop of `add_start_guest_event` after a failure, backwards: the resources of the last session are
ended. -/
def failedStart (uuid : Bytes) (time : Int) : List Event → List Event
  | [] => []
  | e :: older =>
    if e.IsOf uuid ∧ (e.type = .stop ∨ e.type = .machineId) then e :: older
    else e.close uuid time :: failedStart uuid time older

/-- `add_start_guest_event`. -/
def addStartGuestEvent (v : Virt) (vmPid : Option Int) (events : List Event) : List Event :=
  (if v.success then events else (failedStart v.uuid v.time events.reverse).reverse) ++
    [{ type := .start, uuid := some v.uuid, name := v.name, success := v.success, user := v.user,
       start := v.time, pid := vmPid.getD (-1) }]

/-- The loop of `add_stop_guest_event`, backwards from the event at distance `i` from the last one;
`start` is the distance of the start event, once it has been found. -/
def stopWalk (uuid : Bytes) (time : Int) : Nat → Option Nat → List Event → List Event × Option Nat
  | _, start, [] => ([], start)
  | i, start, e :: older =>
    if ¬ e.IsOf uuid then (stopWalk uuid time (i + 1) start older).map (e :: ·) id
    else match e.type with
      | .start =>
        -- an old session
        if e.stop ≠ 0 ∨ start.isSome then (e :: older, start)
        else (stopWalk uuid time (i + 1) (some i) older).map (e :: ·) id
      | .stop | .machineId => (e :: older, start)
      | _ => (stopWalk uuid time (i + 1) start older).map (e.close uuid time :: ·) id

/-- `add_stop_guest_event`. -/
def addStopGuestEvent (v : Virt) (vmPid : Option Int) (events : List Event) : List Event :=
  let walk := stopWalk v.uuid v.time 0 none events.reverse
  match walk.2 with
  | none => walk.1.reverse
  | some i =>
    (if v.success then walk.1.modify i ({ · with stop := v.time }) else walk.1).reverse ++
      [{ type := .stop, uuid := some v.uuid, name := v.name, success := v.success, user := v.user,
         start := v.time, pid := vmPid.getD (-1) }]

/-- `process_control_event`. -/
def processControlEvent (r : Record) (op : Option Bytes) (vmPid : Option Int) (events : List Event) :
    List Event :=
  match extractVirtFields r with
  | none => events
  | some v =>
    if op = some (ascii "start") then addStartGuestEvent v vmPid events
    else if op = some (ascii "stop") then addStopGuestEvent v vmPid events
    else events

/-- `is_resource`. -/
def isResource (res : Option Bytes) : Bool :=
  res.any fun text => text ≠ [] ∧ text ≠ ascii "0" ∧ text ≠ ascii "?"

/-- `add_resource`. -/
def addResource (v : Virt) (reason resType res : Option Bytes) (events : List Event) : List Event :=
  if isResource res then events ++
    [{ type := .res, uuid := some v.uuid, name := v.name, success := v.success, reason := reason,
       resType := resType, res := res, user := v.user, start := v.time }]
  else events

/-- The loop of `update_resource` backwards, with the update of the event it finds. -/
def endResource (v : Virt) (resType res : Option Bytes) : List Event → List Event
  | [] => []
  | e :: older =>
    if e.type = .res ∧ e.IsOf v.uuid ∧ e.resType = resType ∧ e.res = res then
      { e with stop := v.time } :: older
    else e :: endResource v resType res older

/-- `update_resource`. -/
def updateResource (v : Virt) (resType res : Option Bytes) (events : List Event) : List Event :=
  if isResource res ∧ v.success then (endResource v resType res events.reverse).reverse else events

/-- `process_resource_event`. -/
def processResourceEvent (r : Record) (resrc reason old new cgroup : Option Bytes)
    (events : List Event) : List Event :=
  match extractVirtFields r with
  | none => events
  | some v =>
    if resrc ∈ [ascii "disk", ascii "vcpu", ascii "mem", ascii "rng", ascii "net"].map some then
      addResource v reason resrc new (updateResource v resrc old events)
    else if resrc = some (ascii "cgroup") then addResource v reason resrc cgroup events
    else events

/-- `get_machine_id_by_seclevel`. -/
def getMachineIdBySeclevel (seclevel : Bytes) (events : List Event) : Option Event :=
  events.reverse.find? fun e => e.type = .machineId ∧ e.seclevel = some seclevel

/-- `process_avc_selinux`. -/
def processAvcSelinux (r : Record) (scontext : Bytes) (events : List Event) : List Event :=
  match getSeclevel 0 scontext, r.uid with
  | some seclevel, some user =>
    match getMachineIdBySeclevel seclevel events with
    | some machineId => events ++
      [{ type := .avc, uuid := machineId.uuid, name := machineId.name, start := r.time, user := user,
         seclevel := some seclevel }]
    | none => events
  | _, _ => events

/-- The body of the two loops of `process_anom`, over the events that a loop comes to: the first stop or
start that fits decides, and only a start that has not ended is taken. -/
def runningStart (fits : Event → Bool) (visited : List Event) : Option Event :=
  (visited.find? fun e => fits e ∧ e.success ∧ (e.type = .stop ∨ e.type = .start)).filter
    fun e => e.type = .start ∧ e.stop = 0

/-- An event with this process id. -/
def hasPid (pid : Int) (e : Event) : Bool := e.pid = pid

/-- An event of the guest that a machine-id record is of. -/
def sameGuest (machineId e : Event) : Bool := machineId.uuid.isSome ∧ e.uuid = machineId.uuid

/-- The process id in an anomaly, or -1. -/
def pidOf : List AnomField → Int
  | [] => -1
  | .pid pid :: _ => pid
  | .subj _ :: fields => pidOf fields

/-- The context in an anomaly. -/
def subjOf : List AnomField → Option Bytes
  | [] => none
  | .pid _ :: fields => subjOf fields
  | .subj context :: _ => some context

/-- The context that `auparse_find_field` finds after it has looked for the process id: it goes on from
there, and without a process id it is at the end. -/
def subjBehindPid : List AnomField → Option Bytes
  | [] => none
  | .pid _ :: fields => subjOf fields
  | .subj _ :: fields => subjBehindPid fields

/-- The start that `process_anom` takes: by the process id, and else by the security level.  Its loops
begin at the tail of the list, and follow `next`. -/
def anomStart (events : List Event) (fields : List AnomField) : Option Event :=
  let visited := events.drop (events.length - 1)
  (if 0 ≤ pidOf fields then runningStart (hasPid (pidOf fields)) visited else none).or <|
    (((subjBehindPid fields).bind (getSeclevel 0)).bind (getMachineIdBySeclevel · events)).bind
      fun machineId => runningStart (sameGuest machineId) visited

/-- The event of an anomaly of the guest that was started. -/
def anomEvent (r : Record) (fields : List AnomField) (user : Option Bytes) (start : Event) : Event :=
  { type := .anom, uuid := start.uuid, name := start.name, user := user, start := r.time,
    pid := pidOf fields }

/-- `process_anom`. -/
def processAnom (r : Record) (fields : List AnomField) (events : List Event) : List Event :=
  match anomStart events fields, r.uid with
  | some start, some user => events ++ [anomEvent r fields user start]
  | _, _ => events

/-- One round of the loop of `main`. -/
def handle (opts : Options) (events : List Event) (r : Record) : List Event :=
  if wanted opts r then
    match r.kind with
    | .machineId vmCtx model => processMachineIdEvent r vmCtx model events
    | .control op vmPid => processControlEvent r op vmPid events
    | .resource resrc reason old new cgroup => processResourceEvent r resrc reason old new cgroup events
    | .avc (some scontext) => if opts.allEvents then processAvcSelinux r scontext events else events
    | .anom fields => if opts.allEvents then processAnom r fields events else events
    | _ => events
  else events

/-- The loop of `main`. -/
def run (opts : Options) (rs : List Record) : List Event := rs.foldl (handle opts) []

end LibAudit.Auvirt
