import ShipInfer.Queue.Twin

/-!
# The first-in first-out queues

`FifoQueue` of `scheduling/queues/fifo.py` and of `scheduling/queues/fifo.h`. The
pieces of a call are those of the fair queues.
-/

namespace ShipInfer.Queue

structure FifoQueue where
  items : List WorkItem := []
  closed : Bool := false
  accepted : Nat := 0
  rejected : Nat := 0
  evicted : Nat := 0
  expired : Nat := 0
  rejectedByCamera : Counter String := .empty
  evictedByCamera : Counter String := .empty
  expiredByCamera : Counter String := .empty
  producers : List (WorkItem × Int) := []
  consumers : List Waiting := []

namespace FifoQueue

/-! ## The producer -/

def accept (s : FifoQueue) (item : WorkItem) (failed : List (WorkItem × QueueError)) : FifoQueue × Output :=
  ({ s with items := s.items ++ [item.stamped], accepted := s.accepted + 1 },
    { reply := .accepted item.stamped, failed := failed })

def refuse (cfg : Config) (s : FifoQueue) (item : WorkItem) : FifoQueue × Output :=
  if s.closed then (s, { reply := .refused item (.closed cfg.name) })
  else
    ({ s with
        rejected := s.rejected + 1
        rejectedByCamera := s.rejectedByCamera.add item.fairnessKey 1 },
      { reply := .refused item (.full cfg.name s.items.length cfg.capacity) })

/-- The loop of a blocked producer, up to its next wait. -/
def blockLocked (cfg : Config) (s : FifoQueue) (item : WorkItem) (deadline : Int) (clock : Clock) :
    FifoQueue × Output :=
  if cfg.capacity ≤ s.items.length ∧ s.closed = false then
    if deadline - clock.check ≤ 0 then refuse cfg s item
    else ({ s with producers := s.producers ++ [(item, deadline)] }, { reply := .asleep })
  else if s.closed then refuse cfg s item
  else s.accept item []

/-- The victim is the oldest of all. -/
def dropOldest (cfg : Config) (s : FifoQueue) (item : WorkItem) : FifoQueue × Output :=
  match s.items with
  | [] => (s, { reply := .raised .indexError })
  | victim :: items =>
    let s := { s with
      items := items
      evicted := s.evicted + 1
      evictedByCamera := s.evictedByCamera.add victim.fairnessKey 1 }
    s.accept item [(victim, .full cfg.name (items.length + 1) cfg.capacity)]

def put (cfg : Config) (s : FifoQueue) (item : WorkItem) (clock : Clock) : FifoQueue × Output :=
  if s.closed then refuse cfg s item
  else if cfg.capacity ≤ s.items.length then
    match cfg.overflow with
    | .reject => refuse cfg s item
    | .block => blockLocked cfg s item (clock.start + cfg.blockTimeoutNs) clock
    | .dropOldest => dropOldest cfg s item
  else s.accept item []

def putWakes (cfg : Config) (s : FifoQueue) (i : Nat) (clock : Clock) : FifoQueue × Output :=
  match s.producers[i]? with
  | none => (s, { reply := .idle })
  | some (item, deadline) => blockLocked cfg { s with producers := s.producers.eraseIdx i } item deadline clock

/-! ## The consumer -/

structure Drain where
  expired : Nat
  expiredByCamera : Counter String
  batch : List WorkItem := []
  rows : Nat := 0
  failed : List (WorkItem × QueueError) := []

def Drain.expire (d : Drain) (item : WorkItem) : Drain :=
  { d with
    expired := d.expired + 1
    expiredByCamera := d.expiredByCamera.add item.fairnessKey 1
    failed := d.failed ++ [(item, .deadlinePassed)] }

def Drain.take (d : Drain) (item : WorkItem) : Drain :=
  { d with batch := d.batch ++ [item], rows := d.rows + item.rows }

/-- The loop of `get_batch` over the items. -/
def drain (cfg : Config) (now : Int) (maxRows : Nat) : List WorkItem → Drain → List WorkItem × Drain
  | [], d => ([], d)
  | item :: items, d =>
    if d.batch ≠ [] ∧ maxRows < d.rows + item.rows then (item :: items, d)
    else if cfg.dropExpired ∧ item.request.isExpired now then drain cfg now maxRows items (d.expire item)
    else if maxRows ≤ (d.take item).rows then (items, d.take item)
    else drain cfg now maxRows items (d.take item)

def drainLocked (cfg : Config) (s : FifoQueue) (maxRows : Nat) (now : Int) : FifoQueue × Output :=
  let r := drain cfg now maxRows s.items { expired := s.expired, expiredByCamera := s.expiredByCamera }
  ({ s with items := r.1, expired := r.2.expired, expiredByCamera := r.2.expiredByCamera },
    { reply := .batch r.2.batch, failed := r.2.failed })

def fillLocked (cfg : Config) (s : FifoQueue) (window : BatchWindow) (deadline : Int) (clock : Clock) :
    FifoQueue × Output :=
  if s.items.length < window.maxBatchSize ∧ s.closed = false ∧ s.items.length ∉ window.preferredSizes ∧
      0 < deadline - clock.check then
    ({ s with consumers := s.consumers ++ [.fill window deadline] }, { reply := .asleep })
  else drainLocked cfg s window.maxBatchSize clock.drain

def getBatch (cfg : Config) (s : FifoQueue) (window : BatchWindow) (clock : Clock) : FifoQueue × Output :=
  if s.items.isEmpty then
    if s.closed then (s, { reply := .batch [] })
    else ({ s with consumers := s.consumers ++ [.first window] }, { reply := .asleep })
  else if 0 < window.maxDelayUs ∧ s.items.length < window.maxBatchSize then
    fillLocked cfg s window (clock.start + window.maxDelayNs) clock
  else drainLocked cfg s window.maxBatchSize clock.drain

def getBatchWakes (cfg : Config) (s : FifoQueue) (i : Nat) (clock : Clock) : FifoQueue × Output :=
  match s.consumers[i]? with
  | none => (s, { reply := .idle })
  | some (.first window) => getBatch cfg { s with consumers := s.consumers.eraseIdx i } window clock
  | some (.fill window deadline) => fillLocked cfg { s with consumers := s.consumers.eraseIdx i } window deadline clock

def close (cfg : Config) (s : FifoQueue) (error : Option String) : FifoQueue × Output :=
  ({ s with closed := true, items := [] },
    { reply := .drained s.items
      failed := s.items.map fun item => (item, FairPriorityQueue.closeReason cfg error) })

def step (cfg : Config) (s : FifoQueue) : Event → FifoQueue × Output
  | .put item clock => s.put cfg item clock
  | .putWakes i clock => s.putWakes cfg i clock
  | .getBatch window clock => s.getBatch cfg window clock
  | .getBatchWakes i clock => s.getBatchWakes cfg i clock
  | .close error => s.close cfg error

end FifoQueue

namespace Twin

open Std (TreeMap)
open QueueItem

variable {T : Type} [QueueItem T]

structure FifoQueue (T : Type) where
  items : List T := []
  closed : Bool := false
  accepted : Nat := 0
  rejected : Nat := 0
  evicted : Nat := 0
  expired : Nat := 0
  peak : Nat := 0
  rejectedByCamera : TreeMap String Nat := ∅
  evictedByCamera : TreeMap String Nat := ∅
  expiredByCamera : TreeMap String Nat := ∅
  producers : List (T × Int) := []
  consumers : List Waiting := []

namespace FifoQueue

/-! ## The producer of the C++ queue -/

omit [QueueItem T] in
def accept (s : FifoQueue T) (item : T) (dropped : List (T × DropReason)) : FifoQueue T × Output T :=
  ({ s with
      items := s.items ++ [item]
      accepted := s.accepted + 1
      peak := max s.peak (s.items.length + 1) },
    { reply := .accepted item, dropped := dropped })

def reject (s : FifoQueue T) (item : T) : FifoQueue T × Output T :=
  if s.closed then (s, { reply := .closed item })
  else
    ({ s with
        rejected := s.rejected + 1
        rejectedByCamera := Lane.addDepth s.rejectedByCamera (camera item) 1 },
      { reply := .rejected item })

/-- The loop of a blocked producer, up to its next wait. -/
def blockLocked (cfg : Config) (s : FifoQueue T) (item : T) (deadline : Int) (clock : Clock) :
    FifoQueue T × Output T :=
  if cfg.capacity ≤ s.items.length ∧ s.closed = false then
    if deadline ≤ clock.check then reject s item
    else ({ s with producers := s.producers ++ [(item, deadline)] }, { reply := .asleep })
  else if s.closed then reject s item
  else s.accept item []

def dropOldest (handler : Bool) (s : FifoQueue T) (item : T) : FifoQueue T × Output T :=
  match s.items with
  | [] => (s, { reply := .undefined })
  | victim :: items =>
    let s := { s with
      items := items
      evicted := s.evicted + 1
      evictedByCamera := Lane.addDepth s.evictedByCamera (camera victim) 1 }
    s.accept item (handed handler victim .evicted)

def put (cfg : Config) (handler : Bool) (s : FifoQueue T) (item : T) (clock : Clock) : FifoQueue T × Output T :=
  if s.closed then (s, { reply := .closed item })
  else if cfg.capacity ≤ s.items.length then
    match cfg.overflow with
    | .reject => reject s item
    | .block => blockLocked cfg s item (clock.start + cfg.blockTimeoutNs) clock
    | .dropOldest => dropOldest handler s item
  else s.accept item []

/-- A wait that timed out ends the call if the queue is still full. -/
def putWakes (cfg : Config) (s : FifoQueue T) (i : Nat) (clock : Clock) : FifoQueue T × Output T :=
  match s.producers[i]? with
  | none => (s, { reply := .idle })
  | some (item, deadline) =>
    let s := { s with producers := s.producers.eraseIdx i }
    if deadline ≤ clock.check ∧ cfg.capacity ≤ s.items.length then reject s item
    else blockLocked cfg s item deadline clock

/-! ## The consumer of the C++ queue -/

structure Drain (T : Type) where
  expired : Nat
  expiredByCamera : TreeMap String Nat
  batch : List T := []
  rows : Nat := 0
  dropped : List (T × DropReason) := []

def Drain.expire (handler : Bool) (d : Drain T) (item : T) : Drain T :=
  { d with
    expired := d.expired + 1
    expiredByCamera := Lane.addDepth d.expiredByCamera (camera item) 1
    dropped := d.dropped ++ handed handler item .expired }

def Drain.take (d : Drain T) (item : T) : Drain T :=
  { d with batch := d.batch ++ [item], rows := d.rows + FairPriorityQueue.headRows item }

/-- The loop of `get_batch` over the items. -/
def drain (cfg : Config) (handler : Bool) (now : Int) (maxRows : Nat) : List T → Drain T → List T × Drain T
  | [], d => ([], d)
  | item :: items, d =>
    if d.batch.isEmpty = false ∧ maxRows < d.rows + FairPriorityQueue.headRows item then (item :: items, d)
    else if cfg.dropExpired ∧ QueueItem.expired item now then drain cfg handler now maxRows items (d.expire handler item)
    else if maxRows ≤ (d.take item).rows then (items, d.take item)
    else drain cfg handler now maxRows items (d.take item)

def drainLocked (cfg : Config) (handler : Bool) (s : FifoQueue T) (maxRows : Nat) (now : Int) :
    FifoQueue T × Output T :=
  let r := drain cfg handler now maxRows s.items { expired := s.expired, expiredByCamera := s.expiredByCamera }
  ({ s with items := r.1, expired := r.2.expired, expiredByCamera := r.2.expiredByCamera },
    { reply := .batch r.2.batch, dropped := r.2.dropped })

def fillLocked (cfg : Config) (handler : Bool) (s : FifoQueue T) (window : BatchWindow) (deadline : Int) (clock : Clock) :
    FifoQueue T × Output T :=
  if s.items.length < window.maxBatchSize ∧ s.closed = false ∧ s.items.length ∉ window.preferredSizes ∧
      clock.check < deadline then
    ({ s with consumers := s.consumers ++ [.fill window deadline] }, { reply := .asleep })
  else drainLocked cfg handler s window.maxBatchSize clock.drain

def getBatch (cfg : Config) (handler : Bool) (s : FifoQueue T) (window : BatchWindow) (clock : Clock) :
    FifoQueue T × Output T :=
  if s.items.isEmpty then
    if s.closed then (s, { reply := .batch [] })
    else ({ s with consumers := s.consumers ++ [.first window] }, { reply := .asleep })
  else if 0 < window.maxDelayUs ∧ s.items.length < window.maxBatchSize then
    fillLocked cfg handler s window (clock.start + window.maxDelayNs) clock
  else drainLocked cfg handler s window.maxBatchSize clock.drain

def getBatchWakes (cfg : Config) (handler : Bool) (s : FifoQueue T) (i : Nat) (clock : Clock) :
    FifoQueue T × Output T :=
  match s.consumers[i]? with
  | none => (s, { reply := .idle })
  | some (.first window) => getBatch cfg handler { s with consumers := s.consumers.eraseIdx i } window clock
  | some (.fill window deadline) =>
    fillLocked cfg handler { s with consumers := s.consumers.eraseIdx i } window deadline clock

omit [QueueItem T] in
/-- With a drop handler what is left goes there, and nothing is returned. -/
def close (handler : Bool) (s : FifoQueue T) : FifoQueue T × Output T :=
  ({ s with closed := true, items := [] },
    { reply := .drained (if handler then [] else s.items)
      dropped := if handler then s.items.map fun item => (item, .closed) else [] })

end FifoQueue

def FifoQueue.step (cfg : Config) (handler : Bool) (s : FifoQueue WorkItem) : Event →
    FifoQueue WorkItem × Output WorkItem
  | .put item clock => s.put cfg handler item clock
  | .putWakes i clock => s.putWakes cfg i clock
  | .getBatch window clock => s.getBatch cfg handler window clock
  | .getBatchWakes i clock => s.getBatchWakes cfg handler i clock
  | .close _ => s.close handler

end Twin

end ShipInfer.Queue
