import ShipInfer.Queue.Conservation

/-!
# A model instance

`ModelInstance` of `engine/instance.py`: a queue, one worker thread that takes
batches from it and answers them, and `stop`. The worker may die wherever one of
its calls can raise outside a handler; a future is settled by one step, between
any two of which other threads act. Callers do not cancel here, and nobody
starts an instance that was told to stop.
-/

namespace ShipInfer.Engine

open Queue (FairPriorityQueue Clock BatchWindow QueueError Reply)

/-- What a future is settled with. -/
inductive Outcome
  | completed
  | dropped (error : QueueError)
  | batchFailed (error : String)
  /-- Stopped while it waited for an execution slot. -/
  | slotDenied (instanceName : String)
  | stopped (instanceName : String)
  deriving DecidableEq

/-- Where the worker thread is, with the items out of the queue that it has not
settled. -/
inductive Worker
  | unstarted
  | starting
  /-- Before it looks at `_running`. -/
  | looping
  | asleep
  | permitting (items : List WorkItem)
  | executing (items : List WorkItem)
  | completing (items : List WorkItem)
  | failing (items : List WorkItem) (outcome : Outcome)
  /-- The `finally` block: the queue is closed, then what is left in hand is failed. -/
  | closing (items : List WorkItem)
  | sweeping (items : List WorkItem)
  | exited
  deriving DecidableEq

def Worker.inFlight : Worker → List WorkItem
  | .permitting items | .executing items | .completing items | .failing items _ | .closing items | .sweeping items => items
  | .unstarted | .starting | .looping | .asleep | .exited => []

/-- How far `stop` is; whether it gave up on the worker. -/
inductive Stopping
  | no
  | flagged (thread : Bool)
  | closed (thread : Bool)
  | returned (abandoned : Bool)
  deriving DecidableEq

structure Config where
  name : String
  queue : Queue.Config
  window : BatchWindow

structure ModelInstance where
  queue : FairPriorityQueue := {}
  running : Bool := false
  ready : Bool := false
  thread : Bool := false
  startError : Option String := none
  stopping : Stopping := .no
  worker : Worker := .unstarted

inductive Event
  | enqueue (item : WorkItem) (clock : Clock)
  | enqueueWakes (i : Nat) (clock : Clock)
  | start
  /-- The backend is initialised and warm. -/
  | started
  | startFails (error : String)
  /-- Something that is no `Exception` escapes the start. -/
  | startDies
  | poll (clock : Clock)
  | pollWakes (clock : Clock)
  | permit
  | deny
  | executed
  | executionFails (error : String)
  /-- The next item in hand is settled. -/
  | settle
  /-- Nothing is left in hand. -/
  | endBatch
  | die (error : String)
  | closeQueue
  | stop
  | stopCloses
  /-- `join` is over, with the thread or with the patience. -/
  | stopReturns

structure Output where
  accepted : List WorkItem := []
  settled : List (WorkItem × Outcome) := []

namespace ModelInstance

abbrev Step := ModelInstance × Output

/-- A step of the queue: whom it takes in and whom it fails. -/
def ofQueue (s : ModelInstance) (a : Queue.Answer) : Step :=
  ({ s with queue := a.1 }, { accepted := a.2.accepted, settled := a.2.failed.map fun p => (p.1, .dropped p.2) })

/-- Where `get_batch` leaves the worker. -/
def afterPoll : Reply → Worker
  | .batch [] => .looping
  | .batch items => .permitting items
  | .asleep => .asleep
  | _ => .closing []

def polled (s : ModelInstance) (a : Queue.Answer) : Step :=
  let r := s.ofQueue a
  ({ r.1 with worker := afterPoll a.2.reply }, r.2)

def poll (cfg : Config) (s : ModelInstance) (clock : Clock) : Step :=
  if s.running then s.polled (s.queue.getBatch cfg.queue cfg.window clock)
  else ({ s with worker := .closing [] }, {})

def close (cfg : Config) (s : ModelInstance) (error : Option String) : Step := s.ofQueue (s.queue.close cfg.queue error)

/-- An exception leaves the loop: the batch in hand goes to the `finally` block. -/
def die (s : ModelInstance) (error : String) : Step :=
  match s.worker with
  | .looping | .permitting _ | .executing _ | .completing _ | .failing _ _ =>
    ({ s with worker := .closing s.worker.inFlight, running := false, startError := some error }, {})
  | .asleep =>
    ({ s with
        worker := .closing []
        running := false
        startError := some error
        queue := { s.queue with consumers := [] } }, {})
  | _ => (s, {})

def settle (cfg : Config) (s : ModelInstance) : Step :=
  match s.worker with
  | .completing (item :: items) => ({ s with worker := .completing items }, { settled := [(item, .completed)] })
  | .failing (item :: items) outcome => ({ s with worker := .failing items outcome }, { settled := [(item, outcome)] })
  | .sweeping (item :: items) => ({ s with worker := .sweeping items }, { settled := [(item, .stopped cfg.name)] })
  | _ => (s, {})

def stop (s : ModelInstance) : Step :=
  match s.stopping with
  | .no => ({ s with stopping := .flagged s.thread, running := false, ready := false, thread := false }, {})
  | _ => (s, {})

def step (cfg : Config) (s : ModelInstance) : Event → Step
  | .enqueue item clock => s.ofQueue (s.queue.put cfg.queue item clock)
  | .enqueueWakes i clock => s.ofQueue (s.queue.putWakes cfg.queue i clock)
  | .start =>
    match s.worker, s.stopping with
    | .unstarted, .no => ({ s with worker := .starting, running := true, thread := true }, {})
    | _, _ => (s, {})
  | .started =>
    match s.worker with
    | .starting => ({ s with worker := .looping, ready := true }, {})
    | _ => (s, {})
  | .startFails error =>
    match s.worker with
    | .starting => close cfg { s with worker := .exited, startError := some error } (some error)
    | _ => (s, {})
  | .startDies =>
    match s.worker with
    | .starting => ({ s with worker := .exited }, {})
    | _ => (s, {})
  | .poll clock =>
    match s.worker with
    | .looping => poll cfg s clock
    | _ => (s, {})
  | .pollWakes clock =>
    match s.worker with
    | .asleep => s.polled (s.queue.getBatchWakes cfg.queue 0 clock)
    | _ => (s, {})
  | .permit =>
    match s.worker with
    | .permitting items => ({ s with worker := .executing items }, {})
    | _ => (s, {})
  | .deny =>
    match s.worker with
    | .permitting items =>
      if s.running then (s, {}) else ({ s with worker := .failing items (.slotDenied cfg.name) }, {})
    | _ => (s, {})
  | .executed =>
    match s.worker with
    | .executing items => ({ s with worker := .completing items }, {})
    | _ => (s, {})
  | .executionFails error =>
    match s.worker with
    | .executing items => ({ s with worker := .failing items (.batchFailed error) }, {})
    | _ => (s, {})
  | .settle => s.settle cfg
  | .endBatch =>
    match s.worker with
    | .completing [] => ({ s with worker := .looping }, {})
    | .failing [] _ => ({ s with worker := .looping }, {})
    | .sweeping [] => ({ s with worker := .exited }, {})
    | _ => (s, {})
  | .die error => s.die error
  | .closeQueue =>
    match s.worker with
    | .closing items => close cfg { s with worker := .sweeping items, ready := false } none
    | _ => (s, {})
  | .stop => s.stop
  | .stopCloses =>
    match s.stopping with
    | .flagged thread => close cfg { s with stopping := .closed thread } none
    | _ => (s, {})
  | .stopReturns =>
    match s.stopping with
    | .closed thread => ({ s with stopping := .returned (thread && decide (s.worker ≠ .exited)) }, {})
    | _ => (s, {})

def run (cfg : Config) (events : List Event) : ModelInstance × List Output := Machine.exec (step cfg) {} events

/-- `stop` has returned, and its worker is over. -/
def Stopped (s : ModelInstance) : Prop :=
  s.stopping = .returned false ∨ s.stopping = .returned true ∧ s.worker = .exited

end ModelInstance

end ShipInfer.Engine
