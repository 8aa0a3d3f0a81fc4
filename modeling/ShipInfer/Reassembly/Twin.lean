import ShipInfer.Lib.SortedMap
import ShipInfer.Reassembly.Collector

/-!
# The frame collector of the C++ plane

`FrameCollector` of `pipeline/reassembly/collector.cpp`, and a script of calls for the
two collectors, one call at a time on one clock. A call reads the clock once for all its
uses, and what it takes out it emits before it returns.
-/

namespace ShipInfer.Reassembly

open Std (TreeMap)

namespace Twin

/-- `FrameTag::key` -/
def keyText (key : PendingKey) : String := key.1 ++ ":" ++ toString key.2

structure Result where
  state : FrameState
  delivered : List String
  missing : List String
  reason : Reason
  waitedUs : Int
  deriving DecidableEq

/-- `Pending`; its two sets are kept in order. -/
structure Pending where
  state : FrameState
  expected : List String := []
  delivered : List String := []
  openedNs : Int := 0
  deriving DecidableEq

/-- `std::set::insert` of names, one after another. -/
def insertAll (names : List String) (into : List String) : List String :=
  names.foldl (fun into name => if name ∈ into then into else into.orderedInsert (· ≤ ·) name) into

def Pending.complete (f : Pending) : Bool := f.expected.all fun stage => decide (stage ∈ f.delivered)

/-- `finish_locked` -/
def Pending.finish (f : Pending) (reason : Reason) (at_ : Int) : Result :=
  { state := f.state
    delivered := f.delivered
    missing := f.expected.filter fun stage => decide (stage ∉ f.delivered)
    reason := reason
    waitedUs := (at_ - f.openedNs).tdiv 1000 }

structure FrameCollector where
  pending : TreeMap String Pending := ∅
  perCamera : TreeMap String Nat := ∅
  reported : Nat := 0
  evicted : Nat := 0
  evictedByCamera : TreeMap String Nat := ∅
  timedOut : Nat := 0

namespace FrameCollector

/-- `pending_.erase(it)` and one frame less of its camera. -/
def erase (c : FrameCollector) (key : String) (camera : String) : FrameCollector :=
  let left := c.perCamera.getD camera 0 - 1
  { c with
    pending := c.pending.erase key
    perCamera := if left = 0 then c.perCamera.erase camera else c.perCamera.insert camera left }

/-- `std::max_element`: the first of the largest. -/
def maxElement : List (String × Nat) → Option (String × Nat)
  | [] => none
  | p :: l => some (l.foldl (fun best q => if best.2 < q.2 then q else best) p)

/-- `evict_locked`: of the camera that holds the most, the first frame of the map. -/
def evict (c : FrameCollector) (now : Int) : Option (Result × FrameCollector) :=
  match maxElement c.perCamera.toList with
  | none => none
  | some g =>
    match c.pending.toList.find? fun p => decide (p.2.state.context.cameraId = g.1) with
    | none => none
    | some p =>
      some (p.2.finish .evicted now,
        { c.erase p.1 g.1 with
          evicted := c.evicted + 1
          evictedByCamera := c.evictedByCamera.insert g.1 (c.evictedByCamera.getD g.1 0 + 1)
          reported := c.reported + 1 })

def insert (c : FrameCollector) (state : FrameState) (expected : List String) (now : Int) : FrameCollector :=
  { c with
    pending := c.pending.insert (keyText state.key) { state := state, expected := insertAll expected [], openedNs := now }
    perCamera := c.perCamera.insert state.context.cameraId (c.perCamera.getD state.context.cameraId 0 + 1) }

def «open» (capacity : Nat) (c : FrameCollector) (state : FrameState) (expected : List String) (now : Int) :
    FrameCollector × Bool × List Result :=
  if c.pending.contains (keyText state.key) then (c, false, [])
  else if capacity ≤ c.pending.size then
    match c.evict now with
    | none => (c, false, [])
    | some (r, c) => (c.insert state expected now, true, [r])
  else (c.insert state expected now, true, [])

/-- `also_expect` -/
def alsoExpect (c : FrameCollector) (key : PendingKey) (stages : List String) : FrameCollector :=
  match c.pending[keyText key]? with
  | none => c
  | some f => { c with pending := c.pending.insert (keyText key) { f with expected := insertAll stages f.expected } }

def deliver (c : FrameCollector) (key : PendingKey) (stage : String) : FrameCollector :=
  match c.pending[keyText key]? with
  | none => c
  | some f => { c with pending := c.pending.insert (keyText key) { f with delivered := insertAll [stage] f.delivered } }

def «seal» (c : FrameCollector) (key : PendingKey) (now : Int) : FrameCollector × List Result :=
  match c.pending[keyText key]? with
  | none => (c, [])
  | some f =>
    ({ c.erase (keyText key) f.state.context.cameraId with reported := c.reported + 1 },
      [f.finish (if f.complete then .complete else .incomplete) now])

/-- The loop of `sweep` over what is left of the map. -/
def sweepLoop (timeoutNs now : Int) : List (String × Pending) → FrameCollector → FrameCollector × List Result
  | [], c => (c, [])
  | (key, f) :: l, c =>
    if now - f.openedNs < timeoutNs then sweepLoop timeoutNs now l c
    else
      let r := sweepLoop timeoutNs now l
        { c.erase key f.state.context.cameraId with reported := c.reported + 1, timedOut := c.timedOut + 1 }
      (r.1, f.finish .timeout now :: r.2)

def sweep (timeoutNs : Int) (c : FrameCollector) (now : Int) : FrameCollector × List Result :=
  sweepLoop timeoutNs now c.pending.toList c

def drain (c : FrameCollector) (now : Int) : FrameCollector × List Result :=
  ({ c with pending := ∅, perCamera := ∅, reported := c.reported + c.pending.size },
    c.pending.toList.map fun p => p.2.finish .shutdown now)

end FrameCollector

end Twin

/-! ## Scripts -/

inductive Call
  | «open» (state : FrameState) (expected : List String)
  | expect (key : PendingKey) (stages : List String)
  | deliver (key : PendingKey) (stage : String)
  | «seal» (key : PendingKey)
  | sweep
  | drain
  | advance (ns : Nat)

/-- What a call answers: whether it admitted a frame, and the frames it finished. -/
structure Answer (ρ : Type) where
  admitted : Option Bool := none
  finished : List ρ := []
  deriving DecidableEq

/-- A collector and the clock. -/
structure Timed (γ : Type) where
  collector : γ
  now : Int := 0

/-- A call publishes all it has in its hands. -/
def FrameCollector.publishAll (c : FrameCollector) : FrameCollector :=
  c.publishing.foldl (fun c _ => (c.publish 0).1) c

/-- The Python collector on a script. -/
def FrameCollector.call (cfg : Config) (s : Timed FrameCollector) : Call → Timed FrameCollector × Answer FrameResult
  | .open state expected =>
    let r := s.collector.open cfg state expected s.now s.now
    ({ s with collector := r.1.publishAll }, { admitted := some r.2.isOpened, finished := r.1.publishing })
  | .expect key stages => ({ s with collector := (s.collector.expect key stages).1 }, {})
  | .deliver key stage => ({ s with collector := (s.collector.deliver key stage).1 }, {})
  | .seal key =>
    let c := s.collector.seal key s.now
    ({ s with collector := c.publishAll }, { finished := c.publishing })
  | .sweep =>
    let c := s.collector.sweep s.now
    ({ s with collector := c.publishAll }, { finished := c.publishing })
  | .drain =>
    let c := s.collector.drain s.now
    ({ s with collector := c.publishAll }, { finished := c.publishing })
  | .advance ns => ({ s with now := s.now + ns }, {})

/-- The C++ collector on a script. -/
def Twin.FrameCollector.call (cfg : Config) (s : Timed Twin.FrameCollector) : Call → Timed Twin.FrameCollector × Answer Twin.Result
  | .open state expected =>
    let r := s.collector.open cfg.capacity state expected s.now
    ({ s with collector := r.1 }, { admitted := some r.2.1, finished := r.2.2 })
  | .expect key stages => ({ s with collector := s.collector.alsoExpect key stages }, {})
  | .deliver key stage => ({ s with collector := s.collector.deliver key stage }, {})
  | .seal key =>
    let r := s.collector.seal key s.now
    ({ s with collector := r.1 }, { finished := r.2 })
  | .sweep =>
    let r := s.collector.sweep cfg.timeoutNs s.now
    ({ s with collector := r.1 }, { finished := r.2 })
  | .drain =>
    let r := s.collector.drain s.now
    ({ s with collector := r.1 }, { finished := r.2 })
  | .advance ns => ({ s with now := s.now + ns }, {})

end ShipInfer.Reassembly
