import LibAudit.Lib.Ring

/-!
# The queue to the plugins

`audisp/queue.c`: a ring of pointers between the thread that receives events and the thread that hands
them to the plugins.  Every section that holds the lock is one step, and so is what happens between two
of them: a call of `enqueue` may go through its loop four times, with other steps in between, and a call
of `dequeue` may have to wait and be woken up, by a signal or for no reason at all.

`accepted` and `returned` record what went into the ring and what `dequeue` returned.  They and
`oldEnd`, which is explained at its definition, are not looked at by the code.

The depth of the ring is not 0, with which `enqueue` would divide by 0.
-/

namespace LibAudit.Audisp

open List

/-- `overflow_action`. -/
inductive OverflowAction where
  | ignore | syslog | suspend | single | halt
  deriving DecidableEq

/-- The static variables of `queue.c`; `q_depth` is the length of `q`. -/
structure Queue (α : Type) where
  q : List (Option α)
  qNext : Nat
  qLast : Nat
  currentlyUsed : UInt32
  maxUsed : UInt32
  overflowed : Bool
  processingSuspended : Bool
  queueFullWarning : Nat
  depth_pos : 0 < q.length

variable {α : Type}

/-- `q_depth`. -/
def Queue.qDepth (s : Queue α) : Nat := s.q.length

/-- `init_queue`. -/
def initQueue (size : Nat) (h : 0 < size) : Queue α where
  q := List.replicate size none
  qNext := 0
  qLast := 0
  currentlyUsed := 0
  maxUsed := 0
  overflowed := false
  processingSuspended := false
  queueFullWarning := 0
  depth_pos := by rwa [length_replicate]

/-- `QUEUE_FULL_LIMIT`. -/
def queueFullLimit : Nat := 5

/-- `do_overflow_action`, without the messages and the change of the runlevel. -/
def doOverflowAction (action : OverflowAction) (s : Queue α) : Queue α :=
  let s := { s with overflowed := true }
  match action with
  | .syslog =>
    if s.queueFullWarning < queueFullLimit then
      { s with queueFullWarning := s.queueFullWarning + 1 }
    else s
  | .suspend => { s with processingSuspended := true }
  | .ignore | .single | .halt => s

/-- What `enqueue` does while it has the lock; `none` if there is no room. -/
def Queue.put (s : Queue α) (e : α) : Option (Queue α) :=
  let n := s.qNext % s.qDepth
  match s.q[n]? with
  | some none => some { s with
      q := s.q.set n (some e)
      qNext := (n + 1) % s.qDepth
      currentlyUsed := s.currentlyUsed + 1
      maxUsed := max s.maxUsed (s.currentlyUsed + 1)
      depth_pos := by rw [length_set]; exact s.depth_pos }
  | _ => none

/-- The event that `dequeue` finds at `q_last`. -/
def Queue.front (s : Queue α) : Option α := (s.q[s.qLast % s.qDepth]?).join

/-- The end of `dequeue`: "OK, grab the next event". -/
def Queue.grab (s : Queue α) : Option α × Queue α :=
  let n := s.qLast % s.qDepth
  match s.front with
  | some e => (some e, { s with
      q := s.q.set n none
      qLast := (n + 1) % s.qDepth
      currentlyUsed := s.currentlyUsed - 1
      depth_pos := by rw [length_set]; exact s.depth_pos })
  | none => (none, { s with currentlyUsed := s.currentlyUsed - 1 })

/-- `increase_queue_depth`. -/
def Queue.increase (s : Queue α) (size : Nat) : Queue α :=
  if s.qDepth < size then
    { s with
      q := s.q ++ List.replicate (size - s.qDepth) none
      depth_pos := by rw [length_append]; exact Nat.add_pos_left s.depth_pos _ }
  else s

/-! ## Threads -/

/-- The thread that calls `enqueue`: where it is in its loop. -/
inductive Producer (α : Type) where
  | idle
  | trying (e : α) (retryCnt : Nat)

/-- The thread that calls `dequeue`. -/
inductive Consumer where
  | idle
  /-- In `pthread_cond_wait`, with or without a signal since. -/
  | waiting (signalled : Bool)

/-- `pthread_cond_signal(&queue_nonempty)`. -/
def Consumer.signal : Consumer → Consumer
  | .idle => .idle
  | .waiting _ => .waiting true

/-- The queue and its threads. -/
structure System (α : Type) where
  queue : Queue α
  producer : Producer α
  consumer : Consumer
  /-- The events that were put into the ring. -/
  accepted : List α
  /-- The events that `dequeue` returned. -/
  returned : List α
  /-- See `noteGrowth`. -/
  oldEnd : Option Nat

/-- The system after `init_queue`. -/
def System.init (size : Nat) (h : 0 < size) : System α :=
  ⟨initQueue size h, .idle, .idle, [], [], none⟩

/-- What can happen next. -/
inductive Step (α : Type) where
  /-- A call of `enqueue`. -/
  | enqueue (e : α)
  /-- Its loop goes round once. -/
  | attempt (action : OverflowAction)
  /-- A call of `dequeue`, with the value of `disp_hup` that it reads. -/
  | dequeue (dispHup : Bool)
  /-- `pthread_cond_wait` returns. -/
  | wake (dispHup : Bool)
  /-- `nudge_queue`. -/
  | nudge
  /-- `increase_queue_depth`. -/
  | increase (size : Nat)
  /-- `resume_queue`. -/
  | resume
  /-- `reset_suspended`. -/
  | reset
  deriving DecidableEq

/-- The call of `dequeue` ends with `grab`. -/
def System.finish (s : System α) : System α :=
  { s with
    queue := s.queue.grab.2
    consumer := .idle
    returned := s.returned ++ s.queue.grab.1.toList }

/-- The events that were accepted and not returned yet. -/
def System.held (s : System α) : Nat := s.accepted.length - s.returned.length

/-- The first growth of the ring at which the events that it holds reach its end or go on at its
beginning: the number of events that will have been returned when `dequeue` comes to that end. -/
def System.noteGrowth (s : System α) (size : Nat) : Option Nat :=
  let n := s.queue.qDepth
  if s.oldEnd = none ∧ n < size ∧ 0 < s.held ∧ n ≤ s.queue.qLast % n + s.held then
    some (s.returned.length + (n - s.queue.qLast % n))
  else s.oldEnd

/-- One step.  A step that its thread is not ready for leaves everything as it is. -/
def System.step (s : System α) : Step α → System α
  | .enqueue e =>
    match s.producer with
    | .idle =>
      if s.queue.processingSuspended then s else { s with producer := .trying e 0 }
    | .trying _ _ => s
  | .attempt action =>
    match s.producer with
    | .idle => s
    | .trying e retryCnt =>
      if 3 < retryCnt then
        { s with queue := doOverflowAction action s.queue, producer := .idle }
      else match s.queue.put e with
        | some queue => { s with
            queue := queue
            producer := .idle
            consumer := s.consumer.signal
            accepted := s.accepted ++ [e] }
        | none => { s with producer := .trying e (retryCnt + 1) }
  | .dequeue dispHup =>
    match s.consumer with
    | .waiting _ => s
    | .idle =>
      if dispHup then s
      else if s.queue.front.isNone then { s with consumer := .waiting false }
      else s.finish
  | .wake dispHup =>
    match s.consumer with
    | .idle => s
    | .waiting _ => if dispHup then { s with consumer := .idle } else s.finish
  | .nudge => { s with consumer := s.consumer.signal }
  | .increase size => { s with queue := s.queue.increase size, oldEnd := s.noteGrowth size }
  | .resume => { s with queue := { s.queue with processingSuspended := false } }
  | .reset =>
    { s with queue := { s.queue with processingSuspended := false, queueFullWarning := 0 } }

/-- A run from an empty queue. -/
def run (size : Nat) (h : 0 < size) (steps : List (Step α)) : System α :=
  steps.foldl System.step (.init size h)

theorem run_append (size : Nat) (h : 0 < size) (steps : List (Step α)) (st : Step α) :
    run size h (steps ++ [st]) = (run size h steps).step st := by
  rw [run, foldl_append]
  rfl

/-- What the next call of `dequeue` returns, or the present one if there is one: it is stuck if it
waits and nobody has sent a signal. -/
def System.nextDequeue (s : System α) : Option α :=
  match s.consumer with
  | .waiting false => none
  | .idle | .waiting true => s.queue.front

/-- The events returned are those accepted, in the same order, and if any is left the next `dequeue`
returns the oldest one. -/
def System.InOrder (s : System α) : Prop :=
  ∃ left, s.accepted = s.returned ++ left ∧ (left = [] ∨ s.nextDequeue = left.head?)

end LibAudit.Audisp
