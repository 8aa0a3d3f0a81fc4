import ShipInfer.Core.Metrics
import ShipInfer.Queue.Conservation
import ShipInfer.Runners.Walk

/-!
# The in-process runner

`InprocessRunner` of `runners/inprocess.py` within one start cycle: `submit`,
the workers, and `stop`, with the outcomes of `runners/walk.py`. What threads
share is read or written by one step, and any of them acts next. What surrounds
a walk comes with the step that ends it.
-/

namespace ShipInfer.Runners

open Chain
open Queue (FairPriorityQueue Clock BatchWindow QueueError Reply)

/-- What `submit` counts. -/
inductive Admission
  | accepted
  | dropped
  deriving DecidableEq

/-- What the runner counts of an item it accepted. -/
inductive Ending
  | walked
  | failed
  | expired
  | timedOut
  | backpressure
  | queueClosed
  deriving DecidableEq

inductive Metric
  | admission (a : Admission)
  | ending (e : Ending)
  deriving DecidableEq

/-- The outcomes of an accepted item: the queue counts two of its own. -/
inductive ItemOutcome
  | counted (e : Ending)
  | queueEvicted
  | queueExpired
  deriving DecidableEq

inductive FutureError
  | walk (error : WalkError)
  | wrapped (context message : String)
  | deadlinePassed (place : String)
  | stopped
  deriving DecidableEq

/-- What a future is resolved with. -/
inductive Resolution (π ρ ν : Type)
  | result (item : ChainItem π ρ ν)
  | failed (error : FutureError)
  | queueFailed (error : QueueError)
  | cancelled

/-! ## The outcomes of a walk -/

/-- `count_failure` -/
def countFailure : ErrorClass → Ending
  | .ringClosed | .wireRefused => .failed
  | .queueFull => .backpressure
  | .requestTimeout => .timedOut
  | .requestCancelled | .inference | .shipInfer | .foreign => .failed

/-- One of ours travels untouched. -/
def typed (context : String) : WalkError → FutureError
  | .raised .foreign message => .wrapped context message
  | error => .walk error

def failure (context : String) (error : WalkError) {π ρ ν : Type} : Ending × Resolution π ρ ν :=
  (countFailure error.cls, .failed (typed context error))

/-- What a walk counts, and what it then resolves the future with. -/
def verdict {π ρ ν : Type} : Except WalkEnd (ChainItem π ρ ν) → Ending × Resolution π ρ ν
  | .ok item => (.walked, .result item)
  | .error (.expired place) => (.expired, .failed (.deadlinePassed place))
  | .error (.blamed error context) => failure context error

/-! ## The threads -/

/-- Where a worker is. -/
inductive Phase (π ρ ν : Type)
  /-- Before it looks at the stop signal. -/
  | looping
  | polling
  | asleep
  /-- Its batch was empty. -/
  | checking
  /-- Its batch is out of the queue and not yet in its slot. -/
  | holding (items : List WorkItem)
  | serving (rest : List WorkItem)
  | walking (work : WorkItem) (rest : List WorkItem)
  | counting (work : WorkItem) (rest : List WorkItem) (ending : Ending) (inc : Inc) (resolution : Resolution π ρ ν)
  | resolving (work : WorkItem) (rest : List WorkItem) (resolution : Resolution π ρ ν)
  | narrowing (work : WorkItem) (rest : List WorkItem)
  | exited

structure Worker (π ρ ν : Type) where
  phase : Phase π ρ ν := .looping
  /-- What it owes an answer for, as `stop` and `stats` see it. -/
  slot : List WorkItem := []

/-- A call of `submit` behind its `put`. -/
structure Submission where
  admission : Admission
  camera : String
  inc : Inc := .reading

/-- How far `stop` is. -/
inductive Stopping
  | no
  | signalled
  /-- The queue is closed; these are still to be counted. -/
  | charging (left : List WorkItem)
  | chargingOne (item : WorkItem) (left : List WorkItem) (inc : Inc)
  | joining
  /-- The slots from this one on are still to be failed. -/
  | sweeping (k : Nat)
  | stranded (left : List WorkItem) (k : Nat)
  | strandedOne (item : WorkItem) (left : List WorkItem) (inc : Inc) (k : Nat)
  | failing (item : WorkItem) (left : List WorkItem) (k : Nat)
  | stopped

/-- The stop signal. -/
def Stopping.isSet : Stopping → Bool
  | .no => false
  | _ => true

def Phase.hasExited {π ρ ν : Type} : Phase π ρ ν → Bool
  | .exited => true
  | _ => false

structure RunnerConfig where
  topology : Topology
  queue : Queue.Config
  /-- `frames_per_wakeup` -/
  window : BatchWindow
  workers : Nat
  /-- 0: no deadline. -/
  frameDeadlineNs : Int := 0
  workers_pos : 1 ≤ workers

structure InprocessRunner (π ρ ν : Type) where
  queue : FairPriorityQueue := {}
  /-- The chain item of each work item, by its request. -/
  carried : Dict Int (ChainItem π ρ ν) := .empty
  nextRequestId : Int := 0
  submitting : List Submission := []
  workers : List (Worker π ρ ν)
  stopping : Stopping := .no
  metrics : Metric → SharedCounter String := fun _ => {}
  futures : Dict Int (Resolution π ρ ν) := .empty

/-- What a worker does next: nothing is left open, or the clock is read, or a walk is over. -/
inductive Act (π ρ ν : Type)
  | go
  | getBatch (clock : Clock)
  | wake (i : Nat) (clock : Clock)
  | walk (env : WalkEnv π ρ ν)
  /-- Something outside an element raises. -/
  | raises (cls : ErrorClass) (message : String)

namespace InprocessRunner

inductive Event (π ρ ν : Type)
  | submit (item : ChainItem π ρ ν) (priority : Priority) (enqueuedNs : Int) (clock : Clock)
  | submitWakes (i : Nat) (clock : Clock)
  | submitCounts (i : Nat)
  | cancel (requestId : Int)
  | work (w : Nat) (act : Act π ρ ν)
  | stop
  /-- The time to join the workers is over. -/
  | abandon

/-- What a step accepts, and what it counts. -/
structure Output where
  accepted : List WorkItem := []
  counted : List (WorkItem × ItemOutcome) := []

variable {π ρ ν : Type}

def init (cfg : RunnerConfig) : InprocessRunner π ρ ν := { workers := List.replicate cfg.workers {} }

/-! ## What threads share -/

/-- The first to resolve a future wins. -/
def settle (futures : Dict Int (Resolution π ρ ν)) (requestId : Int) (resolution : Resolution π ρ ν) :
    Dict Int (Resolution π ρ ν) :=
  if futures.contains requestId then futures else futures.set requestId resolution

/-- One access of an increment. -/
def inc (s : InprocessRunner π ρ ν) (metric : Metric) (camera : String) (i : Inc) : InprocessRunner π ρ ν × Option Inc :=
  let r := (s.metrics metric).inc camera i
  ({ s with metrics := fun m => if m = metric then r.1 else s.metrics m }, r.2)

/-- A piece of the queue: whom it takes in, and whom it fails and counts. -/
def ofQueue (s : InprocessRunner π ρ ν) (a : Queue.Answer) : InprocessRunner π ρ ν × Output :=
  ({ s with
      queue := a.1
      futures := a.2.failed.foldl (fun futures p => settle futures p.1.request.requestId (.queueFailed p.2)) s.futures },
    { accepted := a.2.accepted
      counted := a.2.evicted.map (·, .queueEvicted) ++ a.2.expired.map (·, .queueExpired) })

def setWorker (s : InprocessRunner π ρ ν) (w : Nat) (worker : Worker π ρ ν) : InprocessRunner π ρ ν :=
  { s with workers := s.workers.set w worker }

/-! ## Submission -/

def submissions : Reply → List Submission
  | .accepted item => [{ admission := .accepted, camera := item.request.context.cameraId }]
  | .refused item (.full ..) => [{ admission := .dropped, camera := item.request.context.cameraId }]
  | _ => []

/-- Where a `put` leaves its caller. -/
def admitting (s : InprocessRunner π ρ ν) (a : Queue.Answer) : InprocessRunner π ρ ν × Output :=
  let r := s.ofQueue a
  ({ r.1 with submitting := r.1.submitting ++ submissions a.2.reply }, r.2)

/-- The carrier the queue reads camera, band and deadline of. -/
def chainWork (cfg : RunnerConfig) (requestId : Int) (item : ChainItem π ρ ν) (priority : Priority) (enqueuedNs : Int) :
    WorkItem where
  request :=
    { modelName := if cfg.topology.name = "" then "chain" else cfg.topology.name
      inputs := .empty
      requestId := requestId
      context := item.context
      priority := priority
      deadlineNs :=
        if cfg.frameDeadlineNs ≠ 0 ∧ item.context.capturedNs ≠ 0 then item.context.capturedNs + cfg.frameDeadlineNs else 0 }
  enqueuedNs := enqueuedNs

def submit (cfg : RunnerConfig) (s : InprocessRunner π ρ ν) (item : ChainItem π ρ ν) (priority : Priority)
    (enqueuedNs : Int) (clock : Clock) : InprocessRunner π ρ ν × Output :=
  admitting { s with nextRequestId := s.nextRequestId + 1, carried := s.carried.set s.nextRequestId item }
    (s.queue.put cfg.queue (chainWork cfg s.nextRequestId item priority enqueuedNs) clock)

def submitCounts (s : InprocessRunner π ρ ν) (i : Nat) : InprocessRunner π ρ ν × Output :=
  match s.submitting[i]? with
  | none => (s, {})
  | some sub =>
    let r := s.inc (.admission sub.admission) sub.camera sub.inc
    match r.2 with
    | none => ({ r.1 with submitting := s.submitting.eraseIdx i }, {})
    | some inc => ({ r.1 with submitting := s.submitting.set i { sub with inc := inc } }, {})

/-! ## The worker loop -/

/-- Where `get_batch` leaves a worker. -/
def afterPoll (phase : Phase π ρ ν) : Reply → Phase π ρ ν
  | .batch [] => .checking
  | .batch items => .holding items
  | .asleep => .asleep
  | .raised _ => .exited
  | _ => phase

def polled (s : InprocessRunner π ρ ν) (w : Nat) (worker : Worker π ρ ν) (a : Queue.Answer) : InprocessRunner π ρ ν × Output :=
  let r := s.ofQueue a
  (r.1.setWorker w { worker with phase := afterPoll worker.phase a.2.reply }, r.2)

/-- A worker that moves on by itself. -/
def move (s : InprocessRunner π ρ ν) (w : Nat) (worker : Worker π ρ ν) (phase : Phase π ρ ν) : InprocessRunner π ρ ν × Output :=
  (s.setWorker w { worker with phase := phase }, {})

def count (s : InprocessRunner π ρ ν) (w : Nat) (worker : Worker π ρ ν) (work : WorkItem) (rest : List WorkItem)
    (ending : Ending) (inc : Inc) (resolution : Resolution π ρ ν) : InprocessRunner π ρ ν × Output :=
  let r := s.inc (.ending ending) work.request.context.cameraId inc
  match r.2 with
  | none =>
    (r.1.setWorker w { worker with phase := .resolving work rest resolution }, { counted := [(work, .counted ending)] })
  | some inc => (r.1.setWorker w { worker with phase := .counting work rest ending inc resolution }, {})

/-- A walk is over: its outcome is counted first. -/
def walked (s : InprocessRunner π ρ ν) (w : Nat) (worker : Worker π ρ ν) (work : WorkItem) (rest : List WorkItem)
    (v : Ending × Resolution π ρ ν) : InprocessRunner π ρ ν × Output :=
  s.move w worker (.counting work rest v.1 .reading v.2)

/-- A worker goes on where nothing but the shared state decides. -/
def go (s : InprocessRunner π ρ ν) (w : Nat) (worker : Worker π ρ ν) : InprocessRunner π ρ ν × Output :=
  match worker.phase with
  | .looping => s.move w worker (if s.stopping.isSet then .exited else .polling)
  | .checking => s.move w worker (if s.queue.closed then .exited else .looping)
  | .holding items => (s.setWorker w { phase := .serving items, slot := items }, {})
  | .serving [] => s.move w worker .looping
  | .serving (work :: rest) => s.move w worker (if s.stopping.isSet then .looping else .walking work rest)
  | .counting work rest ending inc resolution => s.count w worker work rest ending inc resolution
  | .resolving work rest resolution =>
    ({ s.setWorker w { worker with phase := .narrowing work rest } with
        futures := settle s.futures work.request.requestId resolution }, {})
  | .narrowing _ rest => (s.setWorker w { phase := .serving rest, slot := rest }, {})
  | .polling | .asleep | .walking .. | .exited => (s, {})

/-! ## Stop -/

def stop (cfg : RunnerConfig) (s : InprocessRunner π ρ ν) : InprocessRunner π ρ ν × Output :=
  match s.stopping with
  | .no => ({ s with stopping := .signalled }, {})
  | .signalled =>
    let a := s.queue.close cfg.queue none
    let r := s.ofQueue a
    ({ r.1 with stopping := .charging a.2.drained }, r.2)
  | .charging [] => ({ s with stopping := .joining }, {})
  | .charging (item :: left) => ({ s with stopping := .chargingOne item left .reading }, {})
  | .chargingOne item left i =>
    let r := s.inc (.ending .queueClosed) item.request.context.cameraId i
    match r.2 with
    | none => ({ r.1 with stopping := .charging left }, { counted := [(item, .counted .queueClosed)] })
    | some i => ({ r.1 with stopping := .chargingOne item left i }, {})
  | .joining => if s.workers.all (·.phase.hasExited) then ({ s with stopping := .sweeping 0 }, {}) else (s, {})
  | .sweeping k =>
    match s.workers[k]? with
    | none => ({ s with stopping := .stopped }, {})
    | some worker => ({ s.setWorker k { worker with slot := [] } with stopping := .stranded worker.slot (k + 1) }, {})
  | .stranded [] k => ({ s with stopping := .sweeping k }, {})
  | .stranded (item :: left) k => ({ s with stopping := .strandedOne item left .reading k }, {})
  | .strandedOne item left i k =>
    let r := s.inc (.ending (countFailure .requestCancelled)) item.request.context.cameraId i
    match r.2 with
    | none =>
      ({ r.1 with stopping := .failing item left k }, { counted := [(item, .counted (countFailure .requestCancelled))] })
    | some i => ({ r.1 with stopping := .strandedOne item left i k }, {})
  | .failing item left k =>
    ({ s with
        stopping := .stranded left k
        futures := settle s.futures item.request.requestId (.failed .stopped) }, {})
  | .stopped => (s, {})

/-! ## The ledger an operator reads -/

structure RunnerStats where
  accepted : Nat
  walked : Nat
  failed : Nat
  expired : Nat
  timedOut : Nat
  dropped : Nat
  backpressure : Nat
  queueClosed : Nat
  queueEvicted : Nat
  queueExpired : Nat
  inFlight : Nat
  deriving DecidableEq

/-- Every accepted item has one outcome or is in flight. -/
def RunnerStats.AddsUp (stats : RunnerStats) : Prop :=
  stats.accepted = stats.walked + stats.failed + stats.expired + stats.timedOut + stats.backpressure + stats.queueClosed +
    stats.queueEvicted + stats.queueExpired + stats.inFlight

instance (stats : RunnerStats) : Decidable stats.AddsUp := inferInstanceAs (Decidable (_ = _))

/-- The slots `stats` reads: a stop replaces them by empty ones. -/
def slots (s : InprocessRunner π ρ ν) : List WorkItem :=
  match s.stopping with
  | .stopped => []
  | _ => s.workers.flatMap Worker.slot

def total (s : InprocessRunner π ρ ν) (m : Metric) : Nat := (s.metrics m).values.total

/-- The `items` of `stats`. -/
def stats (s : InprocessRunner π ρ ν) : RunnerStats where
  accepted := s.total (.admission .accepted)
  walked := s.total (.ending .walked)
  failed := s.total (.ending .failed)
  expired := s.total (.ending .expired)
  timedOut := s.total (.ending .timedOut)
  dropped := s.total (.admission .dropped)
  backpressure := s.total (.ending .backpressure)
  queueClosed := s.total (.ending .queueClosed)
  queueEvicted := s.queue.evicted
  queueExpired := s.queue.expired
  inFlight := s.queue.size + s.slots.length

/-! ## Steps -/

variable [DecidableEq ρ]

/-- `ChainWalk.run` on a work item. -/
def runWork (cfg : RunnerConfig) (s : InprocessRunner π ρ ν) (env : WalkEnv π ρ ν) (work : WorkItem) :
    Ending × Resolution π ρ ν :=
  match s.carried.get? work.request.requestId with
  | none => failure "the runner failed" (.raised .inference "the work item carries no chain item")
  | some item => verdict (ChainWalk.run cfg.topology env item)

def act (cfg : RunnerConfig) (s : InprocessRunner π ρ ν) (w : Nat) (worker : Worker π ρ ν) :
    Act π ρ ν → InprocessRunner π ρ ν × Output
  | .go => s.go w worker
  | .getBatch clock =>
    match worker.phase with
    | .polling => s.polled w worker (s.queue.getBatch cfg.queue cfg.window clock)
    | _ => (s, {})
  | .wake i clock =>
    match worker.phase with
    | .asleep => s.polled w worker (s.queue.getBatchWakes cfg.queue i clock)
    | _ => (s, {})
  | .walk env =>
    match worker.phase with
    | .walking work rest => s.walked w worker work rest (s.runWork cfg env work)
    | _ => (s, {})
  | .raises cls message =>
    match worker.phase with
    | .walking work rest => s.walked w worker work rest (failure "the runner failed" (.raised cls message))
    | _ => (s, {})

def step (cfg : RunnerConfig) (s : InprocessRunner π ρ ν) : Event π ρ ν → InprocessRunner π ρ ν × Output
  | .submit item priority enqueuedNs clock => s.submit cfg item priority enqueuedNs clock
  | .submitWakes i clock => s.admitting (s.queue.putWakes cfg.queue i clock)
  | .submitCounts i => s.submitCounts i
  | .cancel requestId =>
    if requestId < s.nextRequestId then ({ s with futures := settle s.futures requestId .cancelled }, {}) else (s, {})
  | .work w act =>
    match s.workers[w]? with
    | none => (s, {})
    | some worker => s.act cfg w worker act
  | .stop => s.stop cfg
  | .abandon =>
    match s.stopping with
    | .joining => ({ s with stopping := .sweeping 0 }, {})
    | _ => (s, {})

def run (cfg : RunnerConfig) (events : List (Event π ρ ν)) : InprocessRunner π ρ ν × List Output :=
  Machine.exec (step cfg) (init cfg) events

end InprocessRunner

end ShipInfer.Runners
