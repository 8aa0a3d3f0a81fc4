import Mathlib
import ShipInfer.Lib.Machine

/-!
# One process for each shard

`Fleet` of `launch/supervisor.py`: any number of threads that call `start`, `stop`,
`request_stop` and `supervise`, and processes that end when they like. What a thread does
between two looks at what others may change is one step. `stop` walks the list itself, not a
copy of it, under a lock that `start` does not take.
-/

namespace ShipInfer.Launch

/-- A process, as the kernel and its `Popen` know it. -/
inductive Life
  | up
  /-- It was sent SIGTERM. -/
  | terminated
  /-- It was sent SIGKILL. -/
  | killed
  /-- It has ended, and nobody has waited for it. -/
  | zombie
  | reaped
  deriving DecidableEq

/-- `poll() is None`, once it has been polled. -/
def Life.alive : Life → Bool
  | .up | .terminated | .killed => true
  | .zombie | .reaped => false

def Life.polled : Life → Life
  | .zombie => .reaped
  | life => life

/-- SIGTERM says nothing new to a process that was sent SIGKILL. -/
def Life.asked : Life → Life
  | .up => .terminated
  | life => life

/-- `ShardProcess`: a process is told by its number. -/
structure ShardProcess where
  shard : Nat
  process : Nat
  deriving DecidableEq

inductive FleetError
  | alreadyRunning
  | neverStarted
  /-- What `_spawn` raised for the shard. -/
  | notSpawned (shard : Nat)
  | shardExited (casualties : List ShardProcess)
  deriving DecidableEq

/-- What a thread does once its `stop` is through. -/
inductive Afterwards
  | back
  | raise (error : FleetError)
  deriving DecidableEq

inductive StopPhase
  | locking
  /-- It has the lock. -/
  | checking
  /-- The first loop: is this one alive? -/
  | asking (i : Nat)
  | terminating (i : Nat) (p : ShardProcess)
  /-- The second loop: the wait for this one. -/
  | waiting (i : Nat)
  | killing (i : Nat) (p : ShardProcess)
  | reaping (i : Nat) (p : ShardProcess)
  | clearing
  | releasing
  | left
  deriving DecidableEq

/-- Where a thread's call is. -/
inductive Call
  | idle
  | startChecking
  | startClearing
  | spawning (shard : Nat)
  | appending (p : ShardProcess)
  | stopping (phase : StopPhase) (after : Afterwards)
  | superviseChecking
  | superviseUnstarted
  | watching
  | looking
  | polling (i : Nat) (casualties : List ShardProcess)
  | asking
  | sleeping
  deriving DecidableEq

structure Fleet where
  running : List ShardProcess := []
  stopped : Bool := false
  /-- The thread that has the lock. -/
  lock : Option Nat := none
  /-- The processes spawned so far. -/
  spawned : Nat := 0
  life : Nat → Life := fun _ => .up
  call : Nat → Call := fun _ => .idle

inductive FleetEvent
  | start (thread : Nat)
  | stop (thread : Nat)
  | requestStop
  | supervise (thread : Nat)
  /-- A thread's call goes on. What it is told is whether `_spawn` raises, whether the wait
  runs out, or what `until` says. -/
  | step (thread : Nat) (told : Bool)
  | exit (process : Nat)
  deriving DecidableEq

inductive FleetOutput
  | quiet
  | spawned (process : Nat)
  | terminate (process : Nat)
  | kill (process : Nat)
  /-- A `stop` finds the list empty, or leaves it so. -/
  | down (thread : Nat)
  | returned (thread : Nat)
  | raised (thread : Nat) (error : FleetError)
  deriving DecidableEq

namespace Fleet

abbrev Step := Fleet × FleetOutput

def goto (f : Fleet) (t : Nat) (c : Call) : Fleet := { f with call := Function.update f.call t c }

def setLife (f : Fleet) (process : Nat) (life : Life) : Fleet := { f with life := Function.update f.life process life }

/-- `poll()` reaps what has ended. -/
def poll (f : Fleet) (p : ShardProcess) : Fleet := f.setLife p.process (f.life p.process).polled

def alive (f : Fleet) (p : ShardProcess) : Bool := (f.life p.process).alive

def begin (f : Fleet) (t : Nat) (c : Call) : Step := if f.call t = .idle then (f.goto t c, .quiet) else (f, .quiet)

/-- The call of `stop` begins with the event. -/
def callStop (f : Fleet) (t : Nat) (after : Afterwards) : Fleet :=
  ({ f with stopped := true } : Fleet).goto t (.stopping .locking after)

def leave (f : Fleet) (t : Nat) : Afterwards → Step
  | .back => (f.goto t .idle, .returned t)
  | .raise error => (f.goto t .idle, .raised t error)

def stopStep (f : Fleet) (t : Nat) (told : Bool) (after : Afterwards) : StopPhase → Step
  | .locking =>
    if f.lock = none then ({ f.goto t (.stopping .checking after) with lock := some t }, .quiet) else (f, .quiet)
  | .checking =>
    if f.running = [] then (f.goto t (.stopping .releasing after), .down t)
    else (f.goto t (.stopping (.asking 0) after), .quiet)
  | .asking i =>
    match f.running[i]? with
    | none => (f.goto t (.stopping (.waiting 0) after), .quiet)
    | some p =>
      ((f.poll p).goto t (.stopping (if f.alive p then .terminating i p else .asking (i + 1)) after), .quiet)
  | .terminating i p =>
    if f.alive p then
      ((f.setLife p.process (f.life p.process).asked).goto t (.stopping (.asking (i + 1)) after), .terminate p.process)
    else ((f.poll p).goto t (.stopping (.asking (i + 1)) after), .quiet)
  | .waiting i =>
    match f.running[i]? with
    | none => (f.goto t (.stopping .clearing after), .quiet)
    | some p =>
      if f.alive p then if told then (f.goto t (.stopping (.killing i p) after), .quiet) else (f, .quiet)
      else ((f.poll p).goto t (.stopping (.waiting (i + 1)) after), .quiet)
  | .killing i p =>
    if f.alive p then ((f.setLife p.process .killed).goto t (.stopping (.reaping i p) after), .kill p.process)
    else ((f.poll p).goto t (.stopping (.reaping i p) after), .quiet)
  | .reaping i p =>
    if f.alive p then (f, .quiet) else ((f.poll p).goto t (.stopping (.waiting (i + 1)) after), .quiet)
  | .clearing => ({ f.goto t (.stopping .releasing after) with running := [] }, .down t)
  | .releasing => ({ f.goto t (.stopping .left after) with lock := none }, .quiet)
  | .left => f.leave t after

def callStep (shards : Nat) (f : Fleet) (t : Nat) (told : Bool) : Step :=
  match f.call t with
  | .idle => (f, .quiet)
  | .startChecking =>
    if f.running = [] then (f.goto t .startClearing, .quiet) else (f.goto t .idle, .raised t .alreadyRunning)
  | .startClearing => ({ f.goto t (.spawning 0) with stopped := false }, .quiet)
  | .spawning shard =>
    if shards ≤ shard then (f.goto t .idle, .returned t)
    else if told then (f.callStop t (.raise (.notSpawned shard)), .quiet)
    else
      ({ (f.setLife f.spawned .up).goto t (.appending { shard, process := f.spawned }) with spawned := f.spawned + 1 },
        .spawned f.spawned)
  | .appending p => ({ f.goto t (.spawning (p.shard + 1)) with running := f.running ++ [p] }, .quiet)
  | .stopping phase after => f.stopStep t told after phase
  | .superviseChecking => (f.goto t (if f.running = [] then .superviseUnstarted else .watching), .quiet)
  | .superviseUnstarted =>
    if f.stopped then (f.goto t .watching, .quiet) else (f.goto t .idle, .raised t .neverStarted)
  | .watching => if f.stopped then (f.callStop t .back, .quiet) else (f.goto t .looking, .quiet)
  | .looking => if f.running = [] then (f.callStop t .back, .quiet) else (f.goto t (.polling 0 []), .quiet)
  | .polling i casualties =>
    match f.running[i]? with
    | some p => ((f.poll p).goto t (.polling (i + 1) (if f.alive p then casualties else casualties ++ [p])), .quiet)
    | none =>
      if casualties = [] then (f.goto t .asking, .quiet)
      else (f.callStop t (.raise (.shardExited casualties)), .quiet)
  | .asking => if told then (f.goto t .idle, .returned t) else (f.goto t .sleeping, .quiet)
  | .sleeping => (f.goto t .watching, .quiet)

def step (shards : Nat) (f : Fleet) : FleetEvent → Step
  | .start t => f.begin t .startChecking
  | .stop t => if f.call t = .idle then (f.callStop t .back, .quiet) else (f, .quiet)
  | .requestStop => ({ f with stopped := true }, .quiet)
  | .supervise t => f.begin t .superviseChecking
  | .step t told => f.callStep shards t told
  | .exit process =>
    if process < f.spawned ∧ (f.life process).alive then (f.setLife process .zombie, .quiet) else (f, .quiet)

/-- A new fleet, and what its threads and processes do in some order. -/
def run (shards : Nat) (events : List FleetEvent) : Fleet × List FleetOutput := Machine.exec (step shards) {} events

end Fleet

end ShipInfer.Launch
