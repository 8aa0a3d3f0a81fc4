import ShipInfer.Lib.SortedMap
import ShipInfer.Barrier.Safety

/-!
# The barrier of the C++ plane

`InstantBarrier` of `pipeline/mtmc/barrier.cpp`, the twin of `topology/barrier.py`.
Its open buckets and its history of ended spans are maps by instant id; the rest
of its fields are those of the Python barrier, member by member (`live_` is the
live set). A call here is the model of a call there, with the same steps.
-/

namespace ShipInfer.Barrier

open Std (TreeMap)

/-- `WaiterBudget` of the C++ plane. -/
structure TwinBudget where
  permits : Nat
  held : Nat
  overReleased : Nat
  deriving DecidableEq

namespace TwinBudget

def acquire (b : TwinBudget) : Bool × TwinBudget :=
  if b.permits ≤ b.held then (false, b) else (true, { b with held := b.held + 1 })

/-- `release_held`: saturated and counted, since a destructor calls it. -/
def releaseHeld (b : TwinBudget) : TwinBudget :=
  if b.held = 0 then { b with overReleased := b.overReleased + 1 } else { b with held := b.held - 1 }

end TwinBudget

/-- The barrier: `buckets_` and `recent_` are maps by instant id. -/
structure Twin (Camera Payload Results : Type) extends Ledger Camera Payload Results where
  buckets : TreeMap Nat (Bucket Camera Payload Results) := ∅
  recent : TreeMap Nat (ℚ × ℚ) := ∅

namespace Twin

variable {Camera Payload Results : Type}

def new (cfg : Config) : Twin Camera Payload Results where
  maxInstants := cfg.configuredMaxInstants.getD defaultMaxInstants
  recentLimit := max 8 (cfg.configuredMaxInstants.getD defaultMaxInstants * 4)

/-- Writing to the bucket object of an instant. -/
def modify (t : Twin Camera Payload Results) (instant : Nat)
    (f : Bucket Camera Payload Results → Bucket Camera Payload Results) : Twin Camera Payload Results :=
  { t with
    buckets := t.buckets.map fun _ b => if b.instant = instant then f b else b
    ended := t.ended.map fun b => if b.instant = instant then f b else b }

def missed (t : Twin Camera Payload Results) (reason : Reason) (instant : Nat) :
    Twin Camera Payload Results × InstantOutcome Results :=
  ({ t with frameCounts := Function.update t.frameCounts reason (t.frameCounts reason + 1) },
    ⟨some reason, none, instant⟩)

def event (t : Twin Camera Payload Results) (reason : Reason) : Twin Camera Payload Results :=
  { t with instantCounts := Function.update t.instantCounts reason (t.instantCounts reason + 1) }

/-- Past the limit, the span with the lowest id is dropped. -/
def remember (t : Twin Camera Payload Results) (b : Bucket Camera Payload Results) : Twin Camera Payload Results :=
  { t with
    camerasHeld := t.camerasHeld + b.reported.size
    instantsEnded := t.instantsEnded + 1
    camerasHeldMax := max t.camerasHeldMax b.reported.size
    recent := SortedMap.trim (t.recent.insert b.instant (b.first, b.last)) t.recentLimit }

/-- Erased from the map, remembered, resolved and counted: what `close`, `retire`,
`evict` and `close_all` each do to a bucket. -/
def endBucket (t : Twin Camera Payload Results) (b : Bucket Camera Payload Results) (reason : Reason)
    (results : Option Results) : Twin Camera Payload Results :=
  let t := { t with buckets := t.buckets.erase b.instant }
  let t := t.remember b
  let t := { t with ended := t.ended ++ [b.resolve reason results] }
  t.event reason

def close (t : Twin Camera Payload Results) (b : Bucket Camera Payload Results) (reason : Reason)
    (associate : Associate Camera Payload Results) : Twin Camera Payload Results × Answer Results :=
  let run : Association Camera Payload Results := ⟨b.instant, b.entries, associate b.entries⟩
  let t := { t with associations := t.associations ++ [run] }
  match associate b.entries with
  | none => (t.endBucket b .failed none, .associationRaised)
  | some results => (t.endBucket b reason (some results), .outcome ⟨some reason, some results, b.instant⟩)

/-- The loop of `retire` over the ids it found stale. -/
def retireStale : Twin Camera Payload Results → List Nat → Twin Camera Payload Results
  | t, [] => t
  | t, instant :: stale =>
    match t.buckets[instant]? with
    | none => retireStale t stale
    | some b => retireStale (t.endBucket b (if b.ready then b.readyReason else .expired) none) stale

def retire (t : Twin Camera Payload Results) (now : ℚ) : Twin Camera Payload Results :=
  match t.buckets.toList with
  | [] => t
  | front :: _ =>
    if now < front.2.deadline then t
    else
      t.retireStale ((t.buckets.toList.filter fun p => decide (p.2.waiters = 0 ∧ p.2.deadline ≤ now)).map Prod.fst)

/-- Rounds of ending the first bucket of the map. -/
def endFirsts (reason : Reason) : Nat → Twin Camera Payload Results → Twin Camera Payload Results
  | 0, t => t
  | rounds + 1, t =>
    match t.buckets.toList with
    | [] => t
    | front :: _ => endFirsts reason rounds (t.endBucket front.2 reason none)

/-- `evict`: each round takes one bucket, while there are as many as the bound. -/
def evict (t : Twin Camera Payload Results) : Twin Camera Payload Results :=
  endFirsts .evicted (t.buckets.size + 1 - t.maxInstants) t

def openInstant (cfg : Config) (t : Twin Camera Payload Results) (captureS now : ℚ) :
    Twin Camera Payload Results × Bucket Camera Payload Results :=
  let t := t.evict
  let b : Bucket Camera Payload Results :=
    { instant := t.nextInstant + 1, deadline := now + cfg.windowS, first := captureS, last := captureS }
  ({ t with nextInstant := t.nextInstant + 1, buckets := t.buckets.insert b.instant b }, b)

/-- `match` -/
def matchOpen (cfg : Config) (t : Twin Camera Payload Results) (captureS : ℚ) :
    Option (Bucket Camera Payload Results) :=
  (t.buckets.toList.reverse.find? fun p =>
    !(p.2.ready || p.2.done) && decide (p.2.spreadWith captureS < cfg.windowS)).map Prod.snd

/-- `late_instant`; ids start at 1, so 0 says there is none. -/
def lateInstant (t : Twin Camera Payload Results) (captureS : ℚ) : Nat :=
  match t.recent.toList.reverse.find? fun p => decide (p.2.1 ≤ captureS ∧ captureS ≤ p.2.2) with
  | none => 0
  | some p => p.1

def park (t : Twin Camera Payload Results) (call : Call Camera Payload Results) (instant : Nat) :
    Twin Camera Payload Results :=
  let t := { t with waiters := t.waiters + 1 }
  let t := t.modify instant Bucket.wait
  { t with
    parked := t.parked ++ [⟨t.nextTicket, call, instant⟩]
    nextTicket := t.nextTicket + 1 }

/-- `~Waiting`, the permit apart. -/
def unpark (t : Twin Camera Payload Results) (w : Waiter Camera Payload Results) : Twin Camera Payload Results :=
  let t := { t with waiters := t.waiters - 1 }
  let t := t.modify w.instant Bucket.leave
  { t with parked := t.parked.eraseP fun v => decide (v.ticket = w.ticket) }

/-- One wake-up of a parked caller. -/
def wake (t : Twin Camera Payload Results) (budget : TwinBudget) (ticket : Nat) :
    Twin Camera Payload Results × TwinBudget × Option (Call Camera Payload Results × Answer Results) :=
  match t.parked.find? fun w => decide (w.ticket = ticket) with
  | none => (t, budget, none)
  | some w =>
    match (t.buckets.toList.map Prod.snd ++ t.ended).find? fun b => decide (b.instant = w.instant) with
    | none => (t, budget, none)
    | some b =>
      if (b.done || b.ready) = false ∧ 0 < b.deadline - t.clock then (t, budget, none)
      else
        let t := t.unpark w
        let b := b.leave
        let budget := budget.releaseHeld
        if b.done then (t, budget, some (w.call, .outcome ⟨b.reason, b.results, b.instant⟩))
        else
          match t.buckets[b.instant]? with
          | some _ =>
            let r := t.close b (if b.ready then b.readyReason else .window) w.call.associate
            (r.1, budget, some (w.call, r.2))
          | none =>
            let r := t.missed .expired b.instant
            (r.1, budget, some (w.call, .outcome r.2))

def closeAll (t : Twin Camera Payload Results) (reason : Reason) : Twin Camera Payload Results :=
  let t := { t with closed := true }
  endFirsts reason t.buckets.size t

variable [DecidableEq Camera]

def refreshLive (cfg : Config) (t : Twin Camera Payload Results) : Twin Camera Payload Results :=
  let t := { t with liveSet := if t.hooked then t.announced else t.seen }
  if cfg.configuredMaxInstants.isSome then t
  else
    let fleet := t.announced ∪ t.seen
    let t := { t with maxInstants := max defaultMaxInstants fleet.card }
    let t := { t with maxInstants := max t.maxInstants (t.buckets.size + 1) }
    { t with recentLimit := max 8 (t.maxInstants * 4) }

def cameraAdded (cfg : Config) (t : Twin Camera Payload Results) (cameraId : Camera) : Twin Camera Payload Results :=
  refreshLive cfg { t with hooked := true, announced := insert cameraId t.announced }

def dropCamera (cfg : Config) (t : Twin Camera Payload Results) (cameraId : Camera) : Twin Camera Payload Results :=
  let t := refreshLive cfg { t with
    announced := t.announced.erase cameraId
    seen := t.seen.erase cameraId
    newestCapture := Function.update t.newestCapture cameraId none
    backwardRun := Function.update t.backwardRun cameraId 0 }
  { t with buckets := t.buckets.map fun _ b =>
      if b.waiters = 0 ∨ b.ready = true ∨ b.done = true then b
      else if b.everyLiveReported t.liveSet then b.sealWith .complete else b }

/-- The camera's first frame: `seen_.insert(camera_id).second`. -/
def see (cfg : Config) (t : Twin Camera Payload Results) (cameraId : Camera) : Twin Camera Payload Results :=
  let first := decide (cameraId ∉ t.seen)
  let t := { t with seen := insert cameraId t.seen }
  if first then refreshLive cfg t else t

/-- The backward test: `none` refuses the frame, `some adopted` goes on. -/
def checkBackward (cfg : Config) (t : Twin Camera Payload Results) (call : Call Camera Payload Results) :
    Twin Camera Payload Results × Option Bool :=
  match t.newestCapture call.cameraId with
  | none => (t, some false)
  | some newest =>
    if call.captureS < newest - cfg.windowS then
      if t.backwardRun call.cameraId < backwardRefusalsBeforeAdopting then
        ({ t with backwardRun := Function.update t.backwardRun call.cameraId (t.backwardRun call.cameraId + 1) }, none)
      else
        ({ t with
            newestCapture := Function.update t.newestCapture call.cameraId (some call.captureS)
            backwardRun := Function.update t.backwardRun call.cameraId 0 }, some true)
    else (t, some false)

/-- Which bucket the frame joins, or the refusal. -/
def place (cfg : Config) (t : Twin Camera Payload Results) (call : Call Camera Payload Results) (now : ℚ) :
    Except (Twin Camera Payload Results × InstantOutcome Results)
      (Twin Camera Payload Results × Bucket Camera Payload Results) :=
  match matchOpen cfg t call.captureS with
  | none =>
    let late := lateInstant t call.captureS
    if late ≠ 0 then .error (t.missed .late late) else .ok (openInstant cfg t call.captureS now)
  | some b =>
    match b.reported.get? call.cameraId with
    | some reported =>
      if call.captureS ≤ reported then .error (t.missed .duplicate b.instant)
      else .ok (openInstant cfg (t.modify b.instant fun b => b.sealWith .advanced) call.captureS now)
    | none => .ok (t, b)

/-- The frame is recorded as its camera's newest. -/
def record (t : Twin Camera Payload Results) (call : Call Camera Payload Results) (adopted : Bool) :
    Twin Camera Payload Results :=
  let t := { t with backwardRun := Function.update t.backwardRun call.cameraId 0 }
  let newest :=
    match t.newestCapture call.cameraId with
    | none => call.captureS
    | some recorded => if adopted then call.captureS else max recorded call.captureS
  { t with newestCapture := Function.update t.newestCapture call.cameraId (some newest) }

/-- `submit`, up to its answer or to the wait. -/
def submit (cfg : Config) (t : Twin Camera Payload Results) (budget : TwinBudget)
    (call : Call Camera Payload Results) :
    Twin Camera Payload Results × TwinBudget × Option (Call Camera Payload Results × Answer Results) :=
  if t.closed then
    let r := t.missed .shutdown 0
    (r.1, budget, some (call, .outcome r.2))
  else
    let now := t.clock
    let t := (t.retire now).see cfg call.cameraId
    match checkBackward cfg t call with
    | (t, none) =>
      let r := t.missed .backward 0
      (r.1, budget, some (call, .outcome r.2))
    | (t, some adopted) =>
      match place cfg t call now with
      | .error r => (r.1, budget, some (call, .outcome r.2))
      | .ok (t, b) =>
        let t := (t.record call adopted).modify b.instant fun b => b.join call
        let b := b.join call
        if b.everyLiveReported t.liveSet then
          let r := t.close b .complete call.associate
          (r.1, budget, some (call, r.2))
        else
          match budget.acquire with
          | (false, budget) =>
            let r := t.missed .wouldStarve b.instant
            (r.1, budget, some (call, .outcome r.2))
          | (true, budget) => (t.park call b.instant, budget, none)

/-- One critical section, on the same inputs as the Python barrier's. -/
def step (cfg : Config) (t : Twin Camera Payload Results) (budget : TwinBudget) :
    Input Camera Payload Results →
    Twin Camera Payload Results × TwinBudget × Option (Call Camera Payload Results × Answer Results)
  | .submit call => t.submit cfg budget call
  | .wake ticket => t.wake budget ticket
  | .cameraAdded cameraId => (t.cameraAdded cfg cameraId, budget, none)
  | .dropCamera cameraId => (t.dropCamera cfg cameraId, budget, none)
  | .advance elapsed => ({ t with clock := t.clock + elapsed }, budget, none)
  | .closeAll reason => (t.closeAll reason, budget, none)

end Twin

end ShipInfer.Barrier
