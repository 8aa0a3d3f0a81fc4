import Mathlib.Data.Finset.Card
import Mathlib.Data.NNRat.Defs
import Mathlib.Data.Rat.Defs
import Mathlib.Algebra.Order.Ring.Rat
import ShipInfer.Lib.Dict
import ShipInfer.Lib.Machine
import ShipInfer.Barrier.Budget

/-!
# The instant barrier

`InstantBarrier` of `topology/barrier.py`: per-camera frames, turned back into
synchronised instants. Every method runs under one condition's lock, and a
caller parked in `submit` gives it up, so the steps of a barrier are its
critical sections: a `submit` up to its answer or to the park, one wake-up of a
parked caller, and the lifecycle methods.

Times are exact rationals where the source has floats. A bucket that left the
map is still held by the callers parked on it: `ended` keeps these objects,
in the order they ended. The observer `on_event` is left out: it only counts.
-/

namespace ShipInfer.Barrier

/-- What happened to an instant (the first seven) and to a frame. -/
inductive Reason
  | complete | window | advanced | evicted | expired | shutdown | failed
  | late | duplicate | wouldStarve | backward
  deriving DecidableEq

/-- `BACKWARD_REFUSALS_BEFORE_ADOPTING` -/
def backwardRefusalsBeforeAdopting : Nat := 1

/-- `DEFAULT_MAX_INSTANTS` -/
def defaultMaxInstants : Nat := 8

/-- The checked arguments of the constructor. -/
structure Config where
  windowS : ℚ
  workers : Nat
  configuredMaxInstants : Option Nat
  window_pos : 0 < windowS
  workers_pos : 1 ≤ workers
  max_pos : ∀ m ∈ configuredMaxInstants, 1 ≤ m

/-- The checks of `InstantBarrier.__init__`, in its order. `workers = None` is one worker. -/
def Config.new (syncWindowS : ℚ) (workers maxInstants : Option Int) : Except ConfigurationError Config :=
  if hw : syncWindowS ≤ 0 then .error .syncWindow
  else if hm : (maxInstants.getD 1) < 1 then .error (.maxInstants (maxInstants.getD 1))
  else if hk : (workers.getD 1) < 1 then .error (.workers (workers.getD 1))
  else .ok {
    windowS := syncWindowS
    workers := (workers.getD 1).toNat
    configuredMaxInstants := maxInstants.map Int.toNat
    window_pos := lt_of_not_ge hw
    workers_pos := by omega
    max_pos := by
      intro m hm'
      cases maxInstants with
      | none => cases hm'
      | some k =>
        simp only [Option.map_some, Option.mem_some_iff, Option.getD_some] at hm' hm
        omega }

/-- One camera's contribution to an instant. -/
structure InstantEntry (Camera Payload : Type) where
  cameraId : Camera
  payload : Payload
  deriving DecidableEq

/-- What a submitted frame got back; `instant` is 0 for one that reached no bucket,
and `reason` is `none` for the empty text a bucket starts with. -/
structure InstantOutcome (Results : Type) where
  reason : Option Reason
  results : Option Results
  instant : Nat
  deriving DecidableEq

/-- `associate`: called with every entry of the instant; `none` is an exception. -/
abbrev Associate (Camera Payload Results : Type) := List (InstantEntry Camera Payload) → Option Results

/-- The arguments of one `submit`. -/
structure Call (Camera Payload Results : Type) where
  cameraId : Camera
  captureS : ℚ
  payload : Payload
  associate : Associate Camera Payload Results

def Call.entry {Camera Payload Results : Type} (call : Call Camera Payload Results) : InstantEntry Camera Payload :=
  ⟨call.cameraId, call.payload⟩

/-- How a `submit` ends: with an outcome, with the exception its association
raised, or with the budget's over-release. -/
inductive Answer (Results : Type)
  | outcome (o : InstantOutcome Results)
  | associationRaised
  | overReleased
  deriving DecidableEq

/-- `_Bucket`: one instant, in flight. -/
structure Bucket (Camera Payload Results : Type) where
  instant : Nat
  deadline : ℚ
  first : ℚ
  last : ℚ
  entries : List (InstantEntry Camera Payload) := []
  reported : Dict Camera ℚ := .empty
  waiters : Nat := 0
  done : Bool := false
  ready : Bool := false
  readyReason : Reason := .complete
  reason : Option Reason := none
  results : Option Results := none

namespace Bucket

variable {Camera Payload Results : Type}

/-- How wide the capture span would be if `captureS` joined. -/
def spreadWith (b : Bucket Camera Payload Results) (captureS : ℚ) : ℚ :=
  max b.last captureS - min b.first captureS

/-- Take no more entries, and close under this reason. -/
def sealWith (b : Bucket Camera Payload Results) (reason : Reason) : Bucket Camera Payload Results :=
  { b with ready := true, readyReason := reason }

def wait (b : Bucket Camera Payload Results) : Bucket Camera Payload Results := { b with waiters := b.waiters + 1 }

def leave (b : Bucket Camera Payload Results) : Bucket Camera Payload Results := { b with waiters := b.waiters - 1 }

/-- Resolved: what everyone waiting on the bucket reads. -/
def resolve (b : Bucket Camera Payload Results) (reason : Reason) (results : Option Results) :
    Bucket Camera Payload Results :=
  { b with results := results, reason := some reason, done := true }

/-- The bucket with the frame in it. -/
def join [DecidableEq Camera] (b : Bucket Camera Payload Results) (call : Call Camera Payload Results) :
    Bucket Camera Payload Results :=
  { b with
    reported := b.reported.set call.cameraId call.captureS
    entries := b.entries ++ [call.entry]
    first := min b.first call.captureS
    last := max b.last call.captureS }

/-- `self._live_set <= bucket.reported.keys()` -/
def everyLiveReported [DecidableEq Camera] (b : Bucket Camera Payload Results) (live : Finset Camera) : Bool :=
  decide (∀ c ∈ live, c ∈ b.reported.keys)

end Bucket

/-- A caller parked in `submit`, on the instant its frame joined. -/
structure Waiter (Camera Payload Results : Type) where
  ticket : Nat
  call : Call Camera Payload Results
  instant : Nat

/-- One run of the association callback: over which entries, and what came back
(`none`: it raised). -/
structure Association (Camera Payload Results : Type) where
  instant : Nat
  entries : List (InstantEntry Camera Payload)
  results : Option Results

/-- The barrier's fields apart from its containers of open and of recently ended
instants; `ended`, `parked`, `nextTicket` and `associations` record what its
callers hold and what has been done, `clock` is what `_clock` answers now. -/
structure Ledger (Camera Payload Results : Type) where
  ended : List (Bucket Camera Payload Results) := []
  nextInstant : Nat := 0
  recentLimit : Nat
  camerasHeld : Nat := 0
  instantsEnded : Nat := 0
  camerasHeldMax : Nat := 0
  announced : Finset Camera := ∅
  seen : Finset Camera := ∅
  newestCapture : Camera → Option ℚ := fun _ => none
  backwardRun : Camera → Nat := fun _ => 0
  hooked : Bool := false
  liveSet : Finset Camera := ∅
  maxInstants : Nat
  waiters : Nat := 0
  closed : Bool := false
  instantCounts : Reason → Nat := fun _ => 0
  frameCounts : Reason → Nat := fun _ => 0
  clock : ℚ := 0
  parked : List (Waiter Camera Payload Results) := []
  nextTicket : Nat := 0
  associations : List (Association Camera Payload Results) := []

/-- The barrier: `_buckets` in the order of the instants' ids, `_recent` in the
order in which the instants ended. -/
structure State (Camera Payload Results : Type) extends Ledger Camera Payload Results where
  buckets : List (Bucket Camera Payload Results) := []
  recent : List (Nat × ℚ × ℚ) := []

variable {Camera Payload Results : Type}

/-- `InstantBarrier.__init__` on checked arguments. -/
def State.new (cfg : Config) : State Camera Payload Results where
  maxInstants := cfg.configuredMaxInstants.getD defaultMaxInstants
  recentLimit := max 8 (cfg.configuredMaxInstants.getD defaultMaxInstants * 4)

namespace State

/-- Every bucket the barrier or a caller still holds. -/
def all (s : State Camera Payload Results) : List (Bucket Camera Payload Results) := s.buckets ++ s.ended

/-- Writing to every bucket object, wherever it is held. -/
def mapAll (s : State Camera Payload Results) (g : Bucket Camera Payload Results → Bucket Camera Payload Results) :
    State Camera Payload Results :=
  { s with buckets := s.buckets.map g, ended := s.ended.map g }

/-- Writing to the bucket object of an instant. -/
def modify (s : State Camera Payload Results) (instant : Nat)
    (f : Bucket Camera Payload Results → Bucket Camera Payload Results) : State Camera Payload Results :=
  s.mapAll fun b => if b.instant = instant then f b else b

/-- `_missed` -/
def missed (s : State Camera Payload Results) (reason : Reason) (instant : Nat) :
    State Camera Payload Results × InstantOutcome Results :=
  ({ s with frameCounts := Function.update s.frameCounts reason (s.frameCounts reason + 1) },
    ⟨some reason, none, instant⟩)

/-- `_event` -/
def event (s : State Camera Payload Results) (reason : Reason) : State Camera Payload Results :=
  { s with instantCounts := Function.update s.instantCounts reason (s.instantCounts reason + 1) }

/-- The span history with one more span at its end, cut down to the limit at its front. -/
def remembered (s : State Camera Payload Results) (b : Bucket Camera Payload Results) : List (Nat × ℚ × ℚ) :=
  let recent := s.recent.filter (fun p => decide (p.1 ≠ b.instant)) ++ [(b.instant, b.first, b.last)]
  recent.drop (recent.length - s.recentLimit)

/-- `_remember` -/
def remember (s : State Camera Payload Results) (b : Bucket Camera Payload Results) :
    State Camera Payload Results :=
  { s with
    camerasHeld := s.camerasHeld + b.reported.size
    instantsEnded := s.instantsEnded + 1
    camerasHeldMax := max s.camerasHeldMax b.reported.size
    recent := s.remembered b }

/-- The end every bucket comes to: out of the map, remembered, resolved, counted. -/
def endBucket (s : State Camera Payload Results) (b : Bucket Camera Payload Results) (reason : Reason)
    (results : Option Results) : State Camera Payload Results :=
  let s := { s with buckets := s.buckets.filter fun c => decide (c.instant ≠ b.instant) }
  let s := s.remember b
  let s := { s with ended := s.ended ++ [b.resolve reason results] }
  s.event reason

/-- `_close`: run the association for one bucket and publish it to everyone
waiting on it. -/
def close (s : State Camera Payload Results) (b : Bucket Camera Payload Results) (reason : Reason)
    (associate : Associate Camera Payload Results) : State Camera Payload Results × Answer Results :=
  let run : Association Camera Payload Results := ⟨b.instant, b.entries, associate b.entries⟩
  let s := { s with associations := s.associations ++ [run] }
  match associate b.entries with
  | none => (s.endBucket b .failed none, .associationRaised)
  | some results => (s.endBucket b reason (some results), .outcome ⟨some reason, some results, b.instant⟩)

/-- Ending several buckets, each under its own reason and with no association. -/
def discard (reason : Bucket Camera Payload Results → Reason) :
    State Camera Payload Results → List (Bucket Camera Payload Results) → State Camera Payload Results
  | s, [] => s
  | s, b :: bs => discard reason (s.endBucket b (reason b) none) bs

/-- `_retire`: discard instants that ran out of time with nobody waiting on them. -/
def retire (s : State Camera Payload Results) (now : ℚ) : State Camera Payload Results :=
  match s.buckets with
  | [] => s
  | front :: _ =>
    if now < front.deadline then s
    else
      let stale := s.buckets.filter fun b => decide (b.waiters = 0 ∧ b.deadline ≤ now)
      s.discard (fun b => if b.ready then b.readyReason else .expired) stale

/-- `_evict`: make room for a new instant by ending the one open longest, and
again. Each round takes the front bucket, so the rounds are known beforehand. -/
def evict (s : State Camera Payload Results) : State Camera Payload Results :=
  s.discard (fun _ => .evicted) (s.buckets.take (s.buckets.length + 1 - s.maxInstants))

/-- `_open`: an instant anchored on this capture. -/
def openInstant (cfg : Config) (s : State Camera Payload Results) (captureS now : ℚ) :
    State Camera Payload Results × Bucket Camera Payload Results :=
  let s := s.evict
  let b : Bucket Camera Payload Results :=
    { instant := s.nextInstant + 1, deadline := now + cfg.windowS, first := captureS, last := captureS }
  ({ s with nextInstant := s.nextInstant + 1, buckets := s.buckets ++ [b] }, b)

/-- `_match`: the newest open instant whose span this capture stays inside. -/
def matchOpen (cfg : Config) (s : State Camera Payload Results) (captureS : ℚ) :
    Option (Bucket Camera Payload Results) :=
  s.buckets.reverse.find? fun b => !(b.ready || b.done) && decide (b.spreadWith captureS < cfg.windowS)

/-- `_late_instant`: the resolved instant this capture belongs inside, newest first. -/
def lateInstant (s : State Camera Payload Results) (captureS : ℚ) : Option Nat :=
  (s.recent.reverse.find? fun p => decide (p.2.1 ≤ captureS ∧ captureS ≤ p.2.2)).map Prod.fst

/-- A permit is held, and both waiter counts say so. -/
def park (s : State Camera Payload Results) (call : Call Camera Payload Results) (instant : Nat) :
    State Camera Payload Results :=
  let s := s.modify instant Bucket.wait
  { s with
    waiters := s.waiters + 1
    parked := s.parked ++ [⟨s.nextTicket, call, instant⟩]
    nextTicket := s.nextTicket + 1 }

/-- The `finally` of the wait, the permit apart. -/
def unpark (s : State Camera Payload Results) (w : Waiter Camera Payload Results) : State Camera Payload Results :=
  let s := s.modify w.instant Bucket.leave
  { s with
    waiters := s.waiters - 1
    parked := s.parked.eraseP fun v => decide (v.ticket = w.ticket) }

/-- One wake-up of a parked caller: the loop's test, and what follows the loop
when it is left. Without an answer the caller waits on. -/
def wake (s : State Camera Payload Results) (budget : WaiterBudget) (ticket : Nat) :
    State Camera Payload Results × WaiterBudget × Option (Call Camera Payload Results × Answer Results) :=
  match s.parked.find? fun w => decide (w.ticket = ticket) with
  | none => (s, budget, none)
  | some w =>
    match s.all.find? fun b => decide (b.instant = w.instant) with
    | none => (s, budget, none)
    | some b =>
      if (b.done || b.ready) = false ∧ 0 < b.deadline - s.clock then (s, budget, none)
      else
        let s := s.unpark w
        let b := b.leave
        match budget.release with
        | none => (s, budget, some (w.call, .overReleased))
        | some budget =>
          if b.done then (s, budget, some (w.call, .outcome ⟨b.reason, b.results, b.instant⟩))
          else if b.instant ∈ s.buckets.map Bucket.instant then
            let r := s.close b (if b.ready then b.readyReason else .window) w.call.associate
            (r.1, budget, some (w.call, r.2))
          else
            let r := s.missed .expired b.instant
            (r.1, budget, some (w.call, .outcome r.2))

/-- `close_all`: resolve every open instant and refuse every later submit. -/
def closeAll (s : State Camera Payload Results) (reason : Reason) : State Camera Payload Results :=
  let s := { s with closed := true }
  s.discard (fun _ => reason) s.buckets

variable [DecidableEq Camera]

/-- `_refresh_live`: the cached live set, and the bound that follows the fleet. -/
def refreshLive (cfg : Config) (s : State Camera Payload Results) : State Camera Payload Results :=
  let s := { s with liveSet := if s.hooked then s.announced else s.seen }
  if cfg.configuredMaxInstants.isSome then s
  else
    let maxInstants := max (max defaultMaxInstants (s.announced ∪ s.seen).card) (s.buckets.length + 1)
    { s with maxInstants := maxInstants, recentLimit := max 8 (maxInstants * 4) }

/-- `camera_added` -/
def cameraAdded (cfg : Config) (s : State Camera Payload Results) (cameraId : Camera) :
    State Camera Payload Results :=
  refreshLive cfg { s with hooked := true, announced := insert cameraId s.announced }

/-- `drop_camera`: stop waiting for a camera, including in instants already open. -/
def dropCamera (cfg : Config) (s : State Camera Payload Results) (cameraId : Camera) :
    State Camera Payload Results :=
  let s := refreshLive cfg { s with
    announced := s.announced.erase cameraId
    seen := s.seen.erase cameraId
    newestCapture := Function.update s.newestCapture cameraId none
    backwardRun := Function.update s.backwardRun cameraId 0 }
  { s with buckets := s.buckets.map fun b =>
      if b.waiters ≠ 0 ∧ b.ready = false ∧ b.everyLiveReported s.liveSet = true then b.sealWith .complete else b }

/-- A camera seen for the first time joins the live set's fallback. -/
def see (cfg : Config) (s : State Camera Payload Results) (cameraId : Camera) : State Camera Payload Results :=
  if cameraId ∈ s.seen then s else refreshLive cfg { s with seen := insert cameraId s.seen }

/-- The backward test of `submit`, against the camera's own newest stamp:
`none` refuses the frame, `some newest` goes on with the reference that still
applies (none for a first frame and for an adopted step). -/
def checkBackward (cfg : Config) (s : State Camera Payload Results) (call : Call Camera Payload Results) :
    State Camera Payload Results × Option (Option ℚ) :=
  match s.newestCapture call.cameraId with
  | none => (s, some none)
  | some newest =>
    if call.captureS < newest - cfg.windowS then
      let refused := s.backwardRun call.cameraId
      if refused < backwardRefusalsBeforeAdopting then
        ({ s with backwardRun := Function.update s.backwardRun call.cameraId (refused + 1) }, none)
      else
        ({ s with
            newestCapture := Function.update s.newestCapture call.cameraId (some call.captureS)
            backwardRun := Function.update s.backwardRun call.cameraId 0 }, some none)
    else (s, some (some newest))

/-- Which bucket the frame joins: the open instant it fits, or a new one; or
the refusal (late, duplicate). -/
def place (cfg : Config) (s : State Camera Payload Results) (call : Call Camera Payload Results) (now : ℚ) :
    Except (State Camera Payload Results × InstantOutcome Results)
      (State Camera Payload Results × Bucket Camera Payload Results) :=
  match matchOpen cfg s call.captureS with
  | none =>
    match lateInstant s call.captureS with
    | some late => .error (s.missed .late late)
    | none => .ok (openInstant cfg s call.captureS now)
  | some b =>
    match b.reported.get? call.cameraId with
    | some reported =>
      if call.captureS ≤ reported then .error (s.missed .duplicate b.instant)
      else .ok (openInstant cfg (s.modify b.instant fun b => b.sealWith .advanced) call.captureS now)
    | none => .ok (s, b)

/-- The frame is recorded as its camera's newest. -/
def record (s : State Camera Payload Results) (call : Call Camera Payload Results) (newest : Option ℚ) :
    State Camera Payload Results :=
  { s with
    backwardRun := Function.update s.backwardRun call.cameraId 0
    newestCapture := Function.update s.newestCapture call.cameraId
      (some (match newest with | none => call.captureS | some newest => max newest call.captureS)) }

/-- The frame joins the bucket it was placed in. -/
def joinBucket (s : State Camera Payload Results) (call : Call Camera Payload Results) (newest : Option ℚ)
    (instant : Nat) : State Camera Payload Results :=
  (s.record call newest).modify instant fun b => b.join call

/-- `submit`, up to its answer or to the wait. The loop's first test is a
wake-up of its own: `clock` may have moved on since `now` was read. -/
def submit (cfg : Config) (s : State Camera Payload Results) (budget : WaiterBudget)
    (call : Call Camera Payload Results) :
    State Camera Payload Results × WaiterBudget × Option (Call Camera Payload Results × Answer Results) :=
  if s.closed then
    let r := s.missed .shutdown 0
    (r.1, budget, some (call, .outcome r.2))
  else
    let now := s.clock
    let s := (s.retire now).see cfg call.cameraId
    match checkBackward cfg s call with
    | (s, none) =>
      let r := s.missed .backward 0
      (r.1, budget, some (call, .outcome r.2))
    | (s, some newest) =>
      match place cfg s call now with
      | .error r => (r.1, budget, some (call, .outcome r.2))
      | .ok (s, b) =>
        let s := s.joinBucket call newest b.instant
        let b := b.join call
        if b.everyLiveReported s.liveSet then
          let r := s.close b .complete call.associate
          (r.1, budget, some (call, r.2))
        else
          match budget.acquire with
          | (false, budget) =>
            let r := s.missed .wouldStarve b.instant
            (r.1, budget, some (call, .outcome r.2))
          | (true, budget) => (s.park call b.instant, budget, none)

end State

/-- What may happen to a barrier: a call by some thread, a wake-up of a parked
one, or time passing on its clock. -/
inductive Input (Camera Payload Results : Type)
  | submit (call : Call Camera Payload Results)
  | wake (ticket : Nat)
  | cameraAdded (cameraId : Camera)
  | dropCamera (cameraId : Camera)
  | advance (elapsed : ℚ≥0)
  | closeAll (reason : Reason)

variable [DecidableEq Camera]

/-- One critical section of a barrier, on the budget it draws from: the call
answered in it, if any, with its answer. -/
def State.step (cfg : Config) (s : State Camera Payload Results) (budget : WaiterBudget) :
    Input Camera Payload Results →
    State Camera Payload Results × WaiterBudget × Option (Call Camera Payload Results × Answer Results)
  | .submit call => s.submit cfg budget call
  | .wake ticket => s.wake budget ticket
  | .cameraAdded cameraId => (s.cameraAdded cfg cameraId, budget, none)
  | .dropCamera cameraId => (s.dropCamera cfg cameraId, budget, none)
  | .advance elapsed => ({ s with clock := s.clock + elapsed }, budget, none)
  | .closeAll reason => (s.closeAll reason, budget, none)

/-! ## Barriers that share a budget -/

/-- The barriers of one process, and the budget they all draw from. -/
structure System (ι Camera Payload Results : Type) where
  barriers : ι → State Camera Payload Results
  budget : WaiterBudget

/-- One critical section of one of the barriers. A critical section takes or
returns a permit once at most, so those of different barriers may be taken one
after the other. -/
def System.run {ι : Type} [DecidableEq ι] (cfg : ι → Config) (y : System ι Camera Payload Results)
    (l : ι × Input Camera Payload Results) :
    System ι Camera Payload Results × Option (Call Camera Payload Results × Answer Results) :=
  let r := (y.barriers l.1).step (cfg l.1) y.budget l.2
  (⟨Function.update y.barriers l.1 r.1, r.2.1⟩, r.2.2)

/-- The barriers `cfg` under a shared budget of `permits`. -/
def system {ι : Type} [DecidableEq ι] (cfg : ι → Config) (permits : Int) :
    Machine (System ι Camera Payload Results)
      ((ι × Input Camera Payload Results) × Option (Call Camera Payload Results × Answer Results)) :=
  .ofFn (fun y => .ok y.budget = WaiterBudget.new permits ∧
    ∀ i, ∃ t, y.barriers i = { State.new (cfg i) with clock := t }) (System.run cfg)

end ShipInfer.Barrier
