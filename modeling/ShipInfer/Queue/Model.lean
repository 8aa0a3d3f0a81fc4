import ShipInfer.Lib.Machine
import ShipInfer.Queue.Lane

/-!
# The fair priority queue

`FairPriorityQueue` of `scheduling/queues/fair.py`. A call runs under the lock
up to its end or its next wait on the condition, and one such piece is one
step: a sleeper is woken at any time, by a notification, its timeout or for no
reason, and only then reads the clock again. What a step answers and whom it
fails is its output.
-/

namespace ShipInfer.Queue

inductive OverflowPolicy
  | reject
  | block
  | dropOldest
  deriving DecidableEq

/-- The checked arguments of the constructor. -/
structure Config where
  name : String
  capacity : Nat
  overflow : OverflowPolicy := .reject
  blockTimeoutMs : Int := 50
  dropExpired : Bool := true
  capacity_pos : 1 ≤ capacity

def Config.blockTimeoutNs (cfg : Config) : Int := cfg.blockTimeoutMs * 1000000

/-- What a worker asks for. -/
structure BatchWindow where
  maxBatchSize : Nat
  maxDelayUs : Int := 0
  preferredSizes : List Nat := []
  maxBatchSize_pos : 1 ≤ maxBatchSize
  preferred_within : ∀ size ∈ preferredSizes, 1 ≤ size ∧ size ≤ maxBatchSize

def BatchWindow.maxDelayNs (window : BatchWindow) : Int := window.maxDelayUs * 1000

/-- The exceptions: a full queue with its depth and capacity, and cancelled
requests. -/
inductive QueueError
  | full (queue : String) (depth capacity : Nat)
  | closed (queue : String)
  | deadlinePassed
  | shutdown (queue : String)
  | given (error : String)
  deriving DecidableEq

/-- A consumer asleep before the first item, or while its batch fills. -/
inductive Waiting
  | first (window : BatchWindow)
  | fill (window : BatchWindow) (deadline : Int)

structure FairPriorityQueue where
  lanes : List Lane := List.replicate priorityLevels {}
  size : Nat := 0
  closed : Bool := false
  accepted : Nat := 0
  rejected : Nat := 0
  evicted : Nat := 0
  expired : Nat := 0
  rejectedByCamera : Counter String := .empty
  evictedByCamera : Counter String := .empty
  expiredByCamera : Counter String := .empty
  /-- Asleep in `put`, each with its deadline. -/
  producers : List (WorkItem × Int) := []
  consumers : List Waiting := []

structure QueueStats where
  depth : Nat
  capacity : Nat
  accepted : Nat
  rejected : Nat
  evicted : Nat
  expired : Nat
  depthByCamera : Counter String
  rejectedByCamera : Counter String
  evictedByCamera : Counter String
  expiredByCamera : Counter String

/-- The readings of the clock within one piece: the start of a deadline, the
time left of one, and the time items are held against. -/
structure Clock where
  start : Int
  check : Int
  drain : Int

inductive Event
  | put (item : WorkItem) (clock : Clock)
  | putWakes (i : Nat) (clock : Clock)
  | getBatch (window : BatchWindow) (clock : Clock)
  | getBatchWakes (i : Nat) (clock : Clock)
  | close (error : Option String)

inductive Reply
  /-- `put` returned. -/
  | accepted (item : WorkItem)
  /-- `put` raised. -/
  | refused (item : WorkItem) (error : QueueError)
  | batch (items : List WorkItem)
  | drained (items : List WorkItem)
  | asleep
  | raised (error : LaneError)
  /-- Nobody sleeps there. -/
  | idle

structure Output where
  reply : Reply
  failed : List (WorkItem × QueueError) := []

/-- The queue a piece leaves, and what it answers. -/
abbrev Answer := FairPriorityQueue × Output

/-! ## The producer -/

namespace FairPriorityQueue

def enqueue (s : FairPriorityQueue) (item : WorkItem) : FairPriorityQueue :=
  { s with
    lanes := s.lanes.modify item.request.priority.level (·.push item.stamped)
    size := s.size + 1
    accepted := s.accepted + 1 }

def accept (s : FairPriorityQueue) (item : WorkItem) (failed : List (WorkItem × QueueError)) : Answer :=
  (s.enqueue item, { reply := .accepted item.stamped, failed := failed })

/-- The item is not taken, and its camera is charged. -/
def reject (cfg : Config) (s : FairPriorityQueue) (item : WorkItem) : Answer :=
  ({ s with
      rejected := s.rejected + 1
      rejectedByCamera := s.rejectedByCamera.add item.fairnessKey 1 },
    { reply := .refused item (.full cfg.name s.size cfg.capacity) })

/-- A closed queue charges nobody. -/
def refuseClosed (cfg : Config) (s : FairPriorityQueue) (item : WorkItem) : Answer :=
  (s, { reply := .refused item (.closed cfg.name) })

/-- The loop of a blocked producer, up to its next wait. -/
def blockLocked (cfg : Config) (s : FairPriorityQueue) (item : WorkItem) (deadline : Int) (clock : Clock) : Answer :=
  if cfg.capacity ≤ s.size ∧ s.closed = false then
    if deadline - clock.check ≤ 0 then reject cfg s item
    else ({ s with producers := s.producers ++ [(item, deadline)] }, { reply := .asleep })
  else if s.closed then refuseClosed cfg s item
  else s.accept item []

/-- The victim comes from the last lane that has one. -/
def evictLowest : List Lane → Except LaneError (Option (WorkItem × List Lane))
  | [] => .ok none
  | lane :: lanes =>
    match evictLowest lanes with
    | .error e => .error e
    | .ok (some (victim, lanes)) => .ok (some (victim, lane :: lanes))
    | .ok none =>
      match lane.evictFromLongest with
      | .error e => .error e
      | .ok none => .ok none
      | .ok (some (victim, lane)) => .ok (some (victim, lane :: lanes))

def dropOldest (cfg : Config) (s : FairPriorityQueue) (item : WorkItem) : Answer :=
  match evictLowest s.lanes with
  | .error e => (s, { reply := .raised e })
  | .ok none => reject cfg s item
  | .ok (some (victim, lanes)) =>
    let s := { s with
      lanes := lanes
      size := s.size - 1
      evicted := s.evicted + 1
      evictedByCamera := s.evictedByCamera.add victim.fairnessKey 1 }
    s.accept item [(victim, .full cfg.name (s.size + 1) cfg.capacity)]

def put (cfg : Config) (s : FairPriorityQueue) (item : WorkItem) (clock : Clock) : Answer :=
  if s.closed then refuseClosed cfg s item
  else if s.size < cfg.capacity then s.accept item []
  else
    match cfg.overflow with
    | .reject => reject cfg s item
    | .block => blockLocked cfg s item (clock.start + cfg.blockTimeoutNs) clock
    | .dropOldest => dropOldest cfg s item

def putWakes (cfg : Config) (s : FairPriorityQueue) (i : Nat) (clock : Clock) : Answer :=
  match s.producers[i]? with
  | none => (s, { reply := .idle })
  | some (item, deadline) => blockLocked cfg { s with producers := s.producers.eraseIdx i } item deadline clock

/-! ## The consumer -/

/-- What `_drain_locked` has taken and charged so far. -/
structure Drain where
  size : Nat
  expired : Nat
  expiredByCamera : Counter String
  batch : List WorkItem := []
  rows : Nat := 0
  failed : List (WorkItem × QueueError) := []

/-- How a loop over a lane ends: the lane is empty, the batch is returned, or a
lane lost its shape. -/
inductive Exit
  | laneDone
  | returned
  | raised (error : LaneError)

def Drain.expire (d : Drain) (item : WorkItem) : Drain :=
  { d with
    size := d.size - 1
    expired := d.expired + 1
    expiredByCamera := d.expiredByCamera.add item.fairnessKey 1
    failed := d.failed ++ [(item, .deadlinePassed)] }

def Drain.take (d : Drain) (item : WorkItem) : Drain :=
  { d with
    size := d.size - 1
    batch := d.batch ++ [item]
    rows := d.rows + item.rows }

/-- The loop over one lane; the number is its size, which every round lowers. -/
def drainLane (cfg : Config) (now : Int) (maxRows : Nat) : Nat → Lane → Drain → Lane × Drain × Exit
  | 0, lane, d => (lane, d, .laneDone)
  | n + 1, lane, d =>
    match lane.peek with
    | .error e => (lane, d, .raised e)
    | .ok none => (lane, d, .laneDone)
    | .ok (some head) =>
      if d.batch ≠ [] ∧ maxRows < d.rows + head.rows then (lane, d, .returned)
      else
        match lane.pop with
        | .error e => (lane, d, .raised e)
        | .ok (item, lane) =>
          if cfg.dropExpired ∧ item.request.isExpired now then drainLane cfg now maxRows n lane (d.expire item)
          else if maxRows ≤ (d.take item).rows then (lane, d.take item, .returned)
          else drainLane cfg now maxRows n lane (d.take item)

def drainLanes (cfg : Config) (now : Int) (maxRows : Nat) : List Lane → Drain → List Lane × Drain × Exit
  | [], d => ([], d, .laneDone)
  | lane :: lanes, d =>
    match drainLane cfg now maxRows lane.size lane d with
    | (lane, d, .laneDone) =>
      let rest := drainLanes cfg now maxRows lanes d
      (lane :: rest.1, rest.2)
    | (lane, d, exit) => (lane :: lanes, d, exit)

def drainLocked (cfg : Config) (s : FairPriorityQueue) (maxRows : Nat) (now : Int) : Answer :=
  let r := drainLanes cfg now maxRows s.lanes
    { size := s.size, expired := s.expired, expiredByCamera := s.expiredByCamera }
  let s := { s with
    lanes := r.1
    size := r.2.1.size
    expired := r.2.1.expired
    expiredByCamera := r.2.1.expiredByCamera }
  match r.2.2 with
  | .raised e => (s, { reply := .raised e, failed := r.2.1.failed })
  | _ => (s, { reply := .batch r.2.1.batch, failed := r.2.1.failed })

def fillLocked (cfg : Config) (s : FairPriorityQueue) (window : BatchWindow) (deadline : Int) (clock : Clock) :
    Answer :=
  if s.size < window.maxBatchSize ∧ s.closed = false ∧ s.size ∉ window.preferredSizes ∧
      0 < deadline - clock.check then
    ({ s with consumers := s.consumers ++ [.fill window deadline] }, { reply := .asleep })
  else drainLocked cfg s window.maxBatchSize clock.drain

def getBatch (cfg : Config) (s : FairPriorityQueue) (window : BatchWindow) (clock : Clock) : Answer :=
  if s.size = 0 then
    if s.closed then (s, { reply := .batch [] })
    else ({ s with consumers := s.consumers ++ [.first window] }, { reply := .asleep })
  else if 0 < window.maxDelayUs ∧ s.size < window.maxBatchSize then
    fillLocked cfg s window (clock.start + window.maxDelayNs) clock
  else drainLocked cfg s window.maxBatchSize clock.drain

def getBatchWakes (cfg : Config) (s : FairPriorityQueue) (i : Nat) (clock : Clock) : Answer :=
  match s.consumers[i]? with
  | none => (s, { reply := .idle })
  | some (.first window) => getBatch cfg { s with consumers := s.consumers.eraseIdx i } window clock
  | some (.fill window deadline) => fillLocked cfg { s with consumers := s.consumers.eraseIdx i } window deadline clock

/-! ## The rest of the class -/

def items (s : FairPriorityQueue) : List WorkItem := s.lanes.flatMap Lane.items

/-- `error or RequestCancelledError(...)` -/
def closeReason (cfg : Config) (error : Option String) : QueueError :=
  match error with
  | none => .shutdown cfg.name
  | some error => .given error

def close (cfg : Config) (s : FairPriorityQueue) (error : Option String) : Answer :=
  let drained := s.lanes.flatMap fun lane => lane.drain.1
  ({ s with closed := true, lanes := s.lanes.map fun lane => lane.drain.2, size := 0 },
    { reply := .drained drained, failed := drained.map fun item => (item, closeReason cfg error) })

def stats (cfg : Config) (s : FairPriorityQueue) : QueueStats where
  depth := s.size
  capacity := cfg.capacity
  accepted := s.accepted
  rejected := s.rejected
  evicted := s.evicted
  expired := s.expired
  depthByCamera := s.lanes.foldl (fun depths lane => depths.update lane.depths) .empty
  rejectedByCamera := s.rejectedByCamera
  evictedByCamera := s.evictedByCamera
  expiredByCamera := s.expiredByCamera

def step (cfg : Config) (s : FairPriorityQueue) : Event → Answer
  | .put item clock => s.put cfg item clock
  | .putWakes i clock => s.putWakes cfg i clock
  | .getBatch window clock => s.getBatch cfg window clock
  | .getBatchWakes i clock => s.getBatchWakes cfg i clock
  | .close error => s.close cfg error

end FairPriorityQueue

/-! ## The way of an item -/

namespace Output

/-- The item `put` took. -/
def accepted (o : Output) : List WorkItem :=
  match o.reply with
  | .accepted item => [item]
  | _ => []

def delivered (o : Output) : List WorkItem :=
  match o.reply with
  | .batch items => items
  | _ => []

/-- What `close` returned. -/
def drained (o : Output) : List WorkItem :=
  match o.reply with
  | .drained items => items
  | _ => []

/-- Failed as the victim of a full queue. -/
def evicted (o : Output) : List WorkItem :=
  o.failed.filterMap fun p =>
    match p.2 with
    | .full _ _ _ => some p.1
    | _ => none

/-- Failed because its deadline passed. -/
def expired (o : Output) : List WorkItem :=
  o.failed.filterMap fun p =>
    match p.2 with
    | .deadlinePassed => some p.1
    | _ => none

end Output

/-- A part of the outputs of a run. -/
def along (part : Output → List WorkItem) (outputs : List Output) : List WorkItem := outputs.flatMap part

/-- Producers, consumers and shutdown in any interleaving: the queue left, and
the outputs in order. -/
def run (cfg : Config) (s : FairPriorityQueue) (events : List Event) : FairPriorityQueue × List Output :=
  Machine.exec (FairPriorityQueue.step cfg) s events

end ShipInfer.Queue
