import ShipInfer.Lib.SortedMap
import ShipInfer.Queue.Model

/-!
# The fair queue of the C++ plane

`Lane` of `scheduling/queues/lanes.h` and `FairPriorityQueue` of
`scheduling/queues/fair.h`, templates over the item they hold. A piece is what it
is in the Python queue: a call, up to its end or its next wait. A wait whose
deadline has passed ends in its piece.
-/

namespace ShipInfer.Queue

open Std (TreeMap)

/-- The item contract of `base.h`. -/
class QueueItem (T : Type) where
  camera : T → String
  rows : T → Nat
  priority : T → Int
  expired : T → Int → Bool

namespace Twin

open QueueItem

variable {T : Type} [QueueItem T]

/-- What the standard leaves undefined: the end of a container read as an element. -/
inductive Fault
  | undefined
  deriving DecidableEq

/-- `by_key_` is unordered: nothing but the sums of `add_depths` goes through it. -/
structure Lane (T : Type) where
  byKey : Dict String (List T) := .empty
  order : List String := []
  seen : List String := []
  size : Nat := 0

namespace Lane

def push (l : Lane T) (item : T) : Lane T :=
  match l.byKey.get? (camera item) with
  | none =>
    { byKey := l.byKey.set (camera item) [item]
      order := l.order ++ [camera item]
      seen := l.seen ++ [camera item]
      size := l.size + 1 }
  | some bucket => { l with byKey := l.byKey.set (camera item) (bucket ++ [item]), size := l.size + 1 }

omit [QueueItem T] in
def pop (l : Lane T) : Except Fault (T × Lane T) :=
  match l.order with
  | [] => .error .undefined
  | key :: order =>
    match l.byKey.get? key with
    | none => .error .undefined
    | some [] => .error .undefined
    | some (item :: bucket) =>
      if bucket.isEmpty = false then
        .ok (item, { l with byKey := l.byKey.set key bucket, order := order ++ [key], size := l.size - 1 })
      else
        .ok (item, { byKey := l.byKey.erase key, order := order, seen := l.seen.erase key, size := l.size - 1 })

/-- `none`: the null pointer. -/
def peek (l : Lane T) : Except Fault (Option T) :=
  match l.order with
  | [] => .ok none
  | key :: _ =>
    match l.byKey.get? key with
    | none => .error .undefined
    | some [] => .error .undefined
    | some (item :: _) => .ok (some item)

/-- The scan of `seen_` for the first of the deepest keys. -/
def worst (byKey : Dict String (List T)) : List String → String × Nat → Except Fault String
  | [], best => .ok best.1
  | key :: keys, best =>
    match byKey.get? key with
    | none => .error .undefined
    | some bucket => worst byKey keys (if best.2 < bucket.length then (key, bucket.length) else best)

def evictFromLongest (l : Lane T) : Except Fault (Option (T × Lane T)) :=
  if l.byKey.entries.isEmpty then .ok none
  else
    match worst l.byKey l.seen ("", 0) with
    | .error e => .error e
    | .ok key =>
      match l.byKey.get? key with
      | none => .error .undefined
      | some [] => .error .undefined
      | some (item :: bucket) =>
        if bucket.isEmpty then
          .ok (some (item,
            { byKey := l.byKey.erase key, order := l.order.erase key, seen := l.seen.erase key, size := l.size - 1 }))
        else .ok (some (item, { l with byKey := l.byKey.set key bucket, size := l.size - 1 }))

/-- `out[key] += n` -/
def addDepth (out : TreeMap String Nat) (key : String) (n : Nat) : TreeMap String Nat :=
  out.insert key (out[key]?.getD 0 + n)

def addDepths (l : Lane T) (out : TreeMap String Nat) : TreeMap String Nat :=
  l.byKey.entries.foldl (fun out p => addDepth out p.1 p.2.length) out

/-- In the order of the turns. -/
def drain (l : Lane T) : Except Fault (List T × Lane T) :=
  match l.order.mapM fun key => l.byKey.get? key with
  | none => .error .undefined
  | some buckets => .ok (buckets.flatten, {})

end Lane

inductive DropReason
  | evicted
  | expired
  | closed
  deriving DecidableEq

structure FairPriorityQueue (T : Type) where
  lanes : List (Lane T) := List.replicate priorityLevels {}
  size : Nat := 0
  closed : Bool := false
  accepted : Nat := 0
  rejected : Nat := 0
  evicted : Nat := 0
  expired : Nat := 0
  peak : Nat := 0
  rejectedByCamera : TreeMap String Nat := ∅
  evictedByCamera : TreeMap String Nat := ∅
  expiredByCamera : TreeMap String Nat := ∅
  producers : List (T × Int) := []
  consumers : List Waiting := []

structure QueueStats where
  depth : Nat
  capacity : Nat
  accepted : Nat
  rejected : Nat
  evicted : Nat
  expired : Nat
  peak : Nat
  depthByCamera : TreeMap String Nat
  rejectedByCamera : TreeMap String Nat
  evictedByCamera : TreeMap String Nat
  expiredByCamera : TreeMap String Nat

/-- What a call returns; an item that is not taken stays with its caller. -/
inductive Reply (T : Type)
  | accepted (item : T)
  | rejected (item : T)
  | closed (item : T)
  | batch (items : List T)
  | drained (items : List T)
  | asleep
  | undefined
  | idle

/-- The items in `dropped` are handed to the drop handler. -/
structure Output (T : Type) where
  reply : Reply T
  dropped : List (T × DropReason) := []

abbrev Answer (T : Type) := FairPriorityQueue T × Output T

/-- `if (on_drop_) on_drop_(...)` -/
def handed (handler : Bool) (item : T) (reason : DropReason) : List (T × DropReason) :=
  if handler then [(item, reason)] else []

namespace FairPriorityQueue

def clampPriority (level : Int) : Nat :=
  if level < 0 then 0 else if priorityLevels ≤ level then priorityLevels - 1 else level.toNat

/-! ## The producer -/

def accept (s : FairPriorityQueue T) (item : T) (dropped : List (T × DropReason)) : Answer T :=
  ({ s with
      lanes := s.lanes.modify (clampPriority (priority item)) (·.push item)
      size := s.size + 1
      accepted := s.accepted + 1
      peak := max s.peak (s.size + 1) },
    { reply := .accepted item, dropped := dropped })

def reject (s : FairPriorityQueue T) (item : T) : Answer T :=
  if s.closed then (s, { reply := .closed item })
  else
    ({ s with
        rejected := s.rejected + 1
        rejectedByCamera := Lane.addDepth s.rejectedByCamera (camera item) 1 },
      { reply := .rejected item })

/-- The loop of a blocked producer, up to its next wait. -/
def blockLocked (cfg : Config) (s : FairPriorityQueue T) (item : T) (deadline : Int) (clock : Clock) : Answer T :=
  if cfg.capacity ≤ s.size ∧ s.closed = false then
    if deadline ≤ clock.check then reject s item
    else ({ s with producers := s.producers ++ [(item, deadline)] }, { reply := .asleep })
  else if s.closed then reject s item
  else s.accept item []

/-- The last lane that has a victim. -/
def evictLowest : List (Lane T) → Except Fault (Option (T × List (Lane T)))
  | [] => .ok none
  | lane :: lanes =>
    match evictLowest lanes with
    | .error e => .error e
    | .ok (some (victim, lanes)) => .ok (some (victim, lane :: lanes))
    | .ok none =>
      match lane.evictFromLongest with
      | .error e => .error e
      | .ok none => .ok none
      | .ok (some (victim, lane)) => .ok (some (victim, lane :: lanes))

def dropOldest (handler : Bool) (s : FairPriorityQueue T) (item : T) : Answer T :=
  match evictLowest s.lanes with
  | .error _ => (s, { reply := .undefined })
  | .ok none => reject s item
  | .ok (some (victim, lanes)) =>
    let s := { s with
      lanes := lanes
      size := s.size - 1
      evicted := s.evicted + 1
      evictedByCamera := Lane.addDepth s.evictedByCamera (camera victim) 1 }
    s.accept item (handed handler victim .evicted)

def put (cfg : Config) (handler : Bool) (s : FairPriorityQueue T) (item : T) (clock : Clock) : Answer T :=
  if s.closed then (s, { reply := .closed item })
  else if cfg.capacity ≤ s.size then
    match cfg.overflow with
    | .reject => reject s item
    | .block => blockLocked cfg s item (clock.start + cfg.blockTimeoutNs) clock
    | .dropOldest => dropOldest handler s item
  else s.accept item []

/-- A wait that timed out ends the call if the queue is still full. -/
def putWakes (cfg : Config) (s : FairPriorityQueue T) (i : Nat) (clock : Clock) : Answer T :=
  match s.producers[i]? with
  | none => (s, { reply := .idle })
  | some (item, deadline) =>
    let s := { s with producers := s.producers.eraseIdx i }
    if deadline ≤ clock.check ∧ cfg.capacity ≤ s.size then reject s item
    else blockLocked cfg s item deadline clock

/-! ## The consumer -/

structure Drain (T : Type) where
  size : Nat
  expired : Nat
  expiredByCamera : TreeMap String Nat
  batch : List T := []
  rows : Nat := 0
  dropped : List (T × DropReason) := []

/-- How the loop over a lane ends: with the lane, with the budget hit, or undefined. -/
inductive Exit
  | laneDone
  | budgetHit
  | undefined

def Drain.expire (handler : Bool) (d : Drain T) (item : T) : Drain T :=
  { d with
    size := d.size - 1
    expired := d.expired + 1
    expiredByCamera := Lane.addDepth d.expiredByCamera (camera item) 1
    dropped := d.dropped ++ handed handler item .expired }

/-- `head->rows() == 0 ? 1 : head->rows()` -/
def headRows (item : T) : Nat := if rows item = 0 then 1 else rows item

def Drain.take (d : Drain T) (item : T) : Drain T :=
  { d with
    size := d.size - 1
    batch := d.batch ++ [item]
    rows := d.rows + headRows item }

/-- The loop over one lane; the number is its size, which every round lowers. -/
def drainLane (cfg : Config) (handler : Bool) (now : Int) (maxRows : Nat) :
    Nat → Lane T → Drain T → Lane T × Drain T × Exit
  | 0, lane, d => (lane, d, .laneDone)
  | n + 1, lane, d =>
    match lane.peek with
    | .error _ => (lane, d, .undefined)
    | .ok none => (lane, d, .undefined)
    | .ok (some head) =>
      if d.batch.isEmpty = false ∧ maxRows < d.rows + headRows head then (lane, d, .budgetHit)
      else
        match lane.pop with
        | .error _ => (lane, d, .undefined)
        | .ok (item, lane) =>
          if cfg.dropExpired ∧ QueueItem.expired item now then drainLane cfg handler now maxRows n lane (d.expire handler item)
          else if maxRows ≤ (d.take item).rows then (lane, d.take item, .budgetHit)
          else drainLane cfg handler now maxRows n lane (d.take item)

def drainLanes (cfg : Config) (handler : Bool) (now : Int) (maxRows : Nat) :
    List (Lane T) → Drain T → List (Lane T) × Drain T × Exit
  | [], d => ([], d, .laneDone)
  | lane :: lanes, d =>
    match drainLane cfg handler now maxRows lane.size lane d with
    | (lane, d, .laneDone) =>
      let rest := drainLanes cfg handler now maxRows lanes d
      (lane :: rest.1, rest.2)
    | (lane, d, exit) => (lane :: lanes, d, exit)

def drainLocked (cfg : Config) (handler : Bool) (s : FairPriorityQueue T) (maxRows : Nat) (now : Int) : Answer T :=
  let r := drainLanes cfg handler now maxRows s.lanes
    { size := s.size, expired := s.expired, expiredByCamera := s.expiredByCamera }
  let s := { s with
    lanes := r.1
    size := r.2.1.size
    expired := r.2.1.expired
    expiredByCamera := r.2.1.expiredByCamera }
  match r.2.2 with
  | .undefined => (s, { reply := .undefined, dropped := r.2.1.dropped })
  | _ => (s, { reply := .batch r.2.1.batch, dropped := r.2.1.dropped })

def fillLocked (cfg : Config) (handler : Bool) (s : FairPriorityQueue T) (window : BatchWindow) (deadline : Int)
    (clock : Clock) : Answer T :=
  if s.size < window.maxBatchSize ∧ s.closed = false ∧ s.size ∉ window.preferredSizes ∧ clock.check < deadline then
    ({ s with consumers := s.consumers ++ [.fill window deadline] }, { reply := .asleep })
  else drainLocked cfg handler s window.maxBatchSize clock.drain

def getBatch (cfg : Config) (handler : Bool) (s : FairPriorityQueue T) (window : BatchWindow) (clock : Clock) :
    Answer T :=
  if s.size = 0 then
    if s.closed then (s, { reply := .batch [] })
    else ({ s with consumers := s.consumers ++ [.first window] }, { reply := .asleep })
  else if 0 < window.maxDelayUs ∧ s.size < window.maxBatchSize then
    fillLocked cfg handler s window (clock.start + window.maxDelayNs) clock
  else drainLocked cfg handler s window.maxBatchSize clock.drain

def getBatchWakes (cfg : Config) (handler : Bool) (s : FairPriorityQueue T) (i : Nat) (clock : Clock) : Answer T :=
  match s.consumers[i]? with
  | none => (s, { reply := .idle })
  | some (.first window) => getBatch cfg handler { s with consumers := s.consumers.eraseIdx i } window clock
  | some (.fill window deadline) =>
    fillLocked cfg handler { s with consumers := s.consumers.eraseIdx i } window deadline clock

/-! ## The rest of the class -/

/-- With a drop handler what is left goes there, and nothing is returned. -/
def close (handler : Bool) (s : FairPriorityQueue T) : Answer T :=
  match s.lanes.mapM Lane.drain with
  | .error _ => (s, { reply := .undefined })
  | .ok drains =>
    let drained := drains.flatMap Prod.fst
    ({ s with closed := true, lanes := drains.map Prod.snd, size := 0 },
      { reply := .drained (if handler then [] else drained)
        dropped := if handler then drained.map fun item => (item, .closed) else [] })

omit [QueueItem T] in
def stats (cfg : Config) (s : FairPriorityQueue T) : QueueStats where
  depth := s.size
  capacity := cfg.capacity
  accepted := s.accepted
  rejected := s.rejected
  evicted := s.evicted
  expired := s.expired
  peak := s.peak
  depthByCamera := s.lanes.foldl (fun out lane => lane.addDepths out) ∅
  rejectedByCamera := s.rejectedByCamera
  evictedByCamera := s.evictedByCamera
  expiredByCamera := s.expiredByCamera

end FairPriorityQueue

end Twin

/-! ## Work items in it -/

/-- `WorkItem` of `engine/request.h`. -/
instance : QueueItem WorkItem where
  camera := WorkItem.fairnessKey
  rows := WorkItem.rows
  priority item := item.request.priority.level
  expired item now := item.request.isExpired now

namespace Twin

/-- The same calls; the error `close` is given is the Python plane's. -/
def FairPriorityQueue.step (cfg : Config) (handler : Bool) (s : FairPriorityQueue WorkItem) : Event → Answer WorkItem
  | .put item clock => s.put cfg handler item clock
  | .putWakes i clock => s.putWakes cfg i clock
  | .getBatch window clock => s.getBatch cfg handler window clock
  | .getBatchWakes i clock => s.getBatchWakes cfg handler i clock
  | .close _ => s.close handler

def run (cfg : Config) (handler : Bool) (s : FairPriorityQueue WorkItem) (events : List Event) :
    FairPriorityQueue WorkItem × List (Output WorkItem) :=
  Machine.exec (FairPriorityQueue.step cfg handler) s events

end Twin

end ShipInfer.Queue
