import ShipInfer.Core.Request
import ShipInfer.Lib.Counter
import ShipInfer.Lib.Machine

/-!
# The frame collector

`FrameCollector` of `pipeline/reassembly/collector.py` and the eviction policies
beside it. What a call does under the lock is one step. The frames it takes out
there it publishes after the lock, one at a time and in any order with the steps
of other calls, so until then they are in its hands. A frame is told by the
number of its opening, since a tag may come back once its frame is out.
-/

namespace ShipInfer.Reassembly

abbrev PendingKey := String × Int

inductive Reason
  | complete
  | incomplete
  | timeout
  | shutdown
  | evicted
  deriving DecidableEq

/-- What the collector reads of a frame. -/
structure FrameState where
  context : RequestContext
  /-- 0 disables it. -/
  deadlineNs : Int := 0
  deriving DecidableEq

def FrameState.key (state : FrameState) : PendingKey := state.context.key

structure FrameResult where
  ticket : Nat
  state : FrameState
  delivered : List String
  missing : List String
  reason : Reason
  waitedUs : Int
  deriving DecidableEq

def FrameResult.isPartial (r : FrameResult) : Bool := decide (r.missing ≠ [])

structure PendingFrame where
  ticket : Nat
  state : FrameState
  openedNs : Int
  deadlineNs : Int
  expected : List String := []
  delivered : List String := []
  deriving DecidableEq

namespace PendingFrame

def expect (f : PendingFrame) (stages : List String) : PendingFrame := { f with expected := stages ∪ f.expected }

def deliver (f : PendingFrame) (stage : String) : PendingFrame :=
  { f with
    expected := f.expected.insert stage
    delivered := if stage ∈ f.delivered then f.delivered else f.delivered ++ [stage] }

def isComplete (f : PendingFrame) : Bool := f.expected.all fun stage => decide (stage ∈ f.delivered)

/-- In order of name. -/
def missing (f : PendingFrame) : List String :=
  (f.expected.filter fun stage => decide (stage ∉ f.delivered)).insertionSort (· ≤ ·)

def isExpired (f : PendingFrame) (now : Int) : Bool := decide (f.deadlineNs ≤ now)

def result (f : PendingFrame) (reason : Reason) (now : Int) : FrameResult :=
  { ticket := f.ticket
    state := f.state
    delivered := f.delivered
    missing := f.missing
    reason := reason
    waitedUs := max 0 ((now - f.openedNs) / 1000) }

end PendingFrame

/-! ## Eviction policies -/

/-- What a policy may ask about the frames that wait. -/
structure PendingIndex where
  cameraCounts : Counter String
  oldest : String → Option PendingKey
  oldestOverall : Option PendingKey

abbrev EvictionPolicy := PendingIndex → Option PendingKey

/-- The camera that holds the most, by name among equals. -/
def greediest : List (String × Nat) → Option (String × Nat)
  | [] => none
  | p :: l =>
    match greediest l with
    | none => some p
    | some q => if q.2 < p.2 ∨ (q.2 = p.2 ∧ q.1 < p.1) then some p else some q

def greediestCameraEviction : EvictionPolicy := fun pending =>
  match greediest pending.cameraCounts.entries with
  | none => none
  | some p => pending.oldest p.1

def oldestFrameEviction : EvictionPolicy := fun pending => pending.oldestOverall

structure Config where
  capacity : Nat
  timeoutMs : Int
  policy : EvictionPolicy

def Config.timeoutNs (cfg : Config) : Int := cfg.timeoutMs * 1000000

/-! ## The collector -/

structure FrameCollector where
  pending : Dict PendingKey PendingFrame := .empty
  /-- A camera's keys in order of arrival. -/
  byCamera : Dict String (Dict PendingKey Unit) := .empty
  opened : Nat := 0
  reported : Nat := 0
  complete : Nat := 0
  incomplete : Nat := 0
  evicted : Nat := 0
  late : Nat := 0
  rejected : Nat := 0
  duplicates : Nat := 0
  /-- Taken out and not published yet. -/
  publishing : List FrameResult := []

/-- What a step does to frames: one opened with what it waits for, more to wait for,
an answer, or a result emitted. -/
inductive Output
  | quiet
  | opened (ticket : Nat) (stages : List String)
  | expected (ticket : Nat) (stages : List String)
  | delivered (ticket : Nat) (stage : String)
  | emitted (result : FrameResult)
  deriving DecidableEq

def Output.isOpened : Output → Bool
  | .opened _ _ => true
  | .quiet => false
  | .expected _ _ => false
  | .delivered _ _ => false
  | .emitted _ => false

inductive Event
  /-- The clock as the call starts, and as it evicts. -/
  | «open» (state : FrameState) (expected : List String) (now evictNow : Int)
  | expect (key : PendingKey) (stages : List String)
  | deliver (key : PendingKey) (stage : String)
  | «seal» (key : PendingKey) (now : Int)
  | sweep (now : Int)
  | drain (now : Int)
  /-- A call publishes a result it has in its hands. -/
  | publish (i : Nat)

namespace FrameCollector

def index (c : FrameCollector) : PendingIndex :=
  { cameraCounts := c.byCamera.mapValues fun _ keys => keys.size
    oldest := fun camera => (c.byCamera.get? camera).bind fun keys => keys.keys.head?
    oldestOverall := c.pending.keys.head? }

def forgetCamera (c : FrameCollector) (key : PendingKey) : FrameCollector :=
  match c.byCamera.get? key.1 with
  | none => c
  | some keys =>
    if (keys.erase key).entries = [] then { c with byCamera := c.byCamera.erase key.1 }
    else { c with byCamera := c.byCamera.set key.1 (keys.erase key) }

/-- The frame and the collector without it. -/
def remove (c : FrameCollector) (key : PendingKey) : Option (PendingFrame × FrameCollector) :=
  match c.pending.get? key with
  | none => none
  | some f => some (f, { c with pending := c.pending.erase key }.forgetCamera key)

def evict (cfg : Config) (c : FrameCollector) (now : Int) : Option (FrameResult × FrameCollector) :=
  match cfg.policy c.index with
  | none => none
  | some key =>
    match c.remove key with
    | none => none
    | some (f, c) => some (f.result .evicted now, { c with evicted := c.evicted + 1 })

/-- The loop that makes room, which every round lowers the number of pending frames
of: whether there is room, and the last frame evicted. -/
def makeRoom (cfg : Config) (now : Int) : Nat → FrameCollector → Option FrameResult →
    Bool × FrameCollector × Option FrameResult
  | 0, c, victim => (decide (c.pending.size < cfg.capacity), c, victim)
  | n + 1, c, victim =>
    if c.pending.size < cfg.capacity then (true, c, victim)
    else
      match c.evict cfg now with
      | none => (false, c, victim)
      | some (r, c) => makeRoom cfg now n c (some r)

/-- The deadline of a frame opened now: the frame's own, where it is tighter. -/
def deadline (cfg : Config) (state : FrameState) (now : Int) : Int :=
  if state.deadlineNs = 0 then now + cfg.timeoutNs else min (now + cfg.timeoutNs) state.deadlineNs

def insert (c : FrameCollector) (f : PendingFrame) : FrameCollector :=
  { c with
    pending := c.pending.set f.state.key f
    byCamera := c.byCamera.set f.state.context.cameraId
      (((c.byCamera.get? f.state.context.cameraId).getD .empty).set f.state.key ())
    opened := c.opened + 1 }

def «open» (cfg : Config) (c : FrameCollector) (state : FrameState) (expected : List String) (now evictNow : Int) :
    FrameCollector × Output :=
  if state.key ∈ c.pending.keys then ({ c with duplicates := c.duplicates + 1 }, .quiet)
  else
    match makeRoom cfg evictNow c.pending.size c none with
    | (false, c, _) => ({ c with rejected := c.rejected + 1 }, .quiet)
    | (true, c, victim) =>
      let f : PendingFrame :=
        { ticket := c.opened, state := state, openedNs := now, deadlineNs := deadline cfg state now }
      ({ c.insert (f.expect expected) with publishing := c.publishing ++ victim.toList }, .opened c.opened expected)

def expect (c : FrameCollector) (key : PendingKey) (stages : List String) : FrameCollector × Output :=
  if stages = [] then (c, .quiet)
  else
    match c.pending.get? key with
    | none => (c, .quiet)
    | some f => ({ c with pending := c.pending.set key (f.expect stages) }, .expected f.ticket stages)

def deliver (c : FrameCollector) (key : PendingKey) (stage : String) : FrameCollector × Output :=
  match c.pending.get? key with
  | none => ({ c with late := c.late + 1 }, .quiet)
  | some f => ({ c with pending := c.pending.set key (f.deliver stage) }, .delivered f.ticket stage)

def «seal» (c : FrameCollector) (key : PendingKey) (now : Int) : FrameCollector :=
  match c.remove key with
  | none => c
  | some (f, c) =>
    { c with publishing := c.publishing ++ [f.result (if f.isComplete then .complete else .incomplete) now] }

/-- Taking the frames of the keys out, for one reason. -/
def removeAll (reason : Reason) (now : Int) : List PendingKey → FrameCollector → FrameCollector
  | [], c => c
  | key :: keys, c =>
    match c.remove key with
    | none => removeAll reason now keys c
    | some (f, c) => removeAll reason now keys { c with publishing := c.publishing ++ [f.result reason now] }

def sweep (c : FrameCollector) (now : Int) : FrameCollector :=
  removeAll .timeout now ((c.pending.entries.filter fun p => p.2.isExpired now).map Prod.fst) c

def drain (c : FrameCollector) (now : Int) : FrameCollector :=
  { c with
    pending := .empty
    byCamera := .empty
    publishing := c.publishing ++ c.pending.values.map fun f => f.result .shutdown now }

def publish (c : FrameCollector) (i : Nat) : FrameCollector × Output :=
  match c.publishing[i]? with
  | none => (c, .quiet)
  | some r =>
    let c := { c with publishing := c.publishing.eraseIdx i, reported := c.reported + 1 }
    (if r.isPartial then { c with incomplete := c.incomplete + 1 } else { c with complete := c.complete + 1 },
      .emitted r)

def step (cfg : Config) (c : FrameCollector) : Event → FrameCollector × Output
  | .open state expected now evictNow => c.open cfg state expected now evictNow
  | .expect key stages => c.expect key stages
  | .deliver key stage => c.deliver key stage
  | .seal key now => (c.seal key now, .quiet)
  | .sweep now => (c.sweep now, .quiet)
  | .drain now => (c.drain now, .quiet)
  | .publish i => c.publish i

def run (cfg : Config) (events : List Event) : FrameCollector × List Output := Machine.exec (step cfg) {} events

end FrameCollector

end ShipInfer.Reassembly
