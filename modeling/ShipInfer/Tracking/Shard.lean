import Mathlib.Logic.Function.Basic
import ShipInfer.Lib.Dict
import ShipInfer.Lib.Machine

/-!
# The tracker shard

`TrackerShard` of `topology/elements/track.py` and of `pipeline/tracking/shard.cpp`:
one tracker a camera, under two levels of lock. A step is what one worker does
between two points where another can come in; a worker whose lock is taken stays
where it is. What a tracker or a callback answers comes with the step. Building a
tracker gives a new one.
-/

namespace ShipInfer.Tracking

/-- What a tracker is given. -/
inductive TrackerEvent (κ : Type)
  | fed (camera : κ) (frame : Int)
  | reset
  deriving DecidableEq

structure Tracker (κ θ : Type) where
  /-- The last first. -/
  log : List (TrackerEvent κ) := []
  /-- The workers that are in a call of it. -/
  inside : List θ := []
  deriving DecidableEq

structure CameraShard (κ θ : Type) where
  /-- The key the table got it under. -/
  cameraId : κ
  tracker : Tracker κ θ := {}
  lastFrameId : Int := -1
  outOfOrder : Nat := 0
  implicitResets : Nat := 0
  lock : Option θ := none
  deriving DecidableEq

inductive Call (κ : Type)
  | update (camera : κ) (frame : Int) (regressionReset : Option Int)
  | reset (camera : κ)
  | resetIfPresent (camera : κ)
  | drop (camera : κ)
  deriving DecidableEq

namespace Call

variable {κ : Type}

def camera : Call κ → κ
  | update c _ _ | reset c | resetIfPresent c | drop c => c

/-- A call that builds a tracker for a camera that has none. -/
def builds : Call κ → Bool
  | update .. | reset _ => true
  | resetIfPresent _ | drop _ => false

end Call

/-- Where the two implementations differ. -/
structure Plane where
  /-- The table is read once without its lock. -/
  peeks : Bool
  /-- There are `reset` and `drop`. -/
  lifecycle : Bool
  /-- Building a tracker may raise. -/
  buildRaises : Bool
  /-- A frame this far behind starts a new stream. -/
  restarts : Option Int → Int → Bool

def python : Plane where
  peeks := true
  lifecycle := true
  buildRaises := true
  restarts reset behind :=
    match reset with
    | none => false
    | some r => r ≠ 0 ∧ behind ≥ r

def cpp : Plane where
  peeks := false
  lifecycle := false
  buildRaises := false
  restarts reset behind :=
    match reset with
    | none => false
    | some r => r > 0 ∧ behind ≥ r

def Plane.offers {κ : Type} (p : Plane) : Call κ → Bool
  | .update .. | .resetIfPresent _ => true
  | .reset _ | .drop _ => p.lifecycle

/-- Where a worker is. -/
inductive Phase (κ : Type)
  | idle
  /-- About to read the table without its lock. -/
  | peeking (c : Call κ)
  /-- In front of the table's lock; holding it. -/
  | queueing (c : Call κ)
  | holding (c : Call κ)
  /-- In front of a camera's lock; holding it. -/
  | waiting (c : Call κ) (i : Nat)
  | locked (c : Call κ) (i : Nat)
  /-- In `tracker.reset` for a restarted stream; in the callback after it. -/
  | restarting (c : Call κ) (frame : Int) (i : Nat)
  | notifying (c : Call κ) (frame : Int) (i : Nat)
  /-- In `tracker.update`. -/
  | feeding (c : Call κ) (i : Nat)
  /-- In `tracker.reset` for `reset`. -/
  | resetting (c : Call κ) (i : Nat)
  deriving DecidableEq

inductive Outcome
  | refused
  | raised
  | updated
  | answered (found : Bool)
  deriving DecidableEq

/-- A worker begins a call, or goes on; what it called into may raise. -/
inductive Act (κ : Type)
  | call (c : Call κ)
  | go (ok : Bool)
  deriving DecidableEq

structure TrackerShard (κ θ : Type) where
  cameras : Dict κ Nat := .empty
  /-- Every camera's shard that was ever built. -/
  shards : List (CameraShard κ θ) := []
  tableLock : Option θ := none
  phase : θ → Phase κ := fun _ => .idle

namespace TrackerShard

variable {κ θ : Type}

abbrev Step (κ θ : Type) := TrackerShard κ θ × Option Outcome

section
variable [DecidableEq θ]

def setPhase (s : TrackerShard κ θ) (t : θ) (ph : Phase κ) : TrackerShard κ θ :=
  { s with phase := Function.update s.phase t ph }

/-- What worker `t` does to a shard on its way to a phase. -/
def atShard (s : TrackerShard κ θ) (t : θ) (i : Nat) (ph : Phase κ) (f : CameraShard κ θ → CameraShard κ θ) : TrackerShard κ θ :=
  { s with shards := s.shards.modify i f, phase := Function.update s.phase t ph }

/-- A call ends and gives the camera's lock back. -/
def leave (s : TrackerShard κ θ) (t : θ) (i : Nat) (f : CameraShard κ θ → CameraShard κ θ) : TrackerShard κ θ :=
  s.atShard t i .idle fun shard => { f shard with lock := none }

end

end TrackerShard

namespace CameraShard

variable {κ θ : Type}

/-- Worker `t` enters the tracker. -/
def enter (shard : CameraShard κ θ) (t : θ) (event : TrackerEvent κ) : CameraShard κ θ :=
  { shard with tracker := { log := event :: shard.tracker.log, inside := t :: shard.tracker.inside } }

def exit [DecidableEq θ] (shard : CameraShard κ θ) (t : θ) : CameraShard κ θ :=
  { shard with tracker := { shard.tracker with inside := shard.tracker.inside.erase t } }

/-- The frame is taken for the stream's next. -/
def feed (shard : CameraShard κ θ) (t : θ) (camera : κ) (frame : Int) : CameraShard κ θ :=
  ({ shard with lastFrameId := frame } : CameraShard κ θ).enter t (.fed camera frame)

end CameraShard

namespace TrackerShard

variable {κ θ : Type} [DecidableEq κ] [DecidableEq θ]

/-- A new shard for the camera, which is the one the worker goes on with. -/
def build (s : TrackerShard κ θ) (t : θ) (c : Call κ) : TrackerShard κ θ where
  cameras := s.cameras.set c.camera s.shards.length
  shards := s.shards ++ [{ cameraId := c.camera }]
  tableLock := s.tableLock
  phase := Function.update s.phase t (.waiting c s.shards.length)

/-- Under the table's lock, which is given back. -/
def underTable (p : Plane) (s : TrackerShard κ θ) (t : θ) (c : Call κ) (ok : Bool) : Step κ θ :=
  let s := { s with tableLock := none }
  match c, s.cameras.get? c.camera with
  | .drop camera, found => ({ s.setPhase t .idle with cameras := s.cameras.erase camera }, some (.answered found.isSome))
  | _, some i => (s.setPhase t (.waiting c i), none)
  | _, none =>
    if c.builds = false then (s.setPhase t .idle, some (.answered false))
    else if p.buildRaises && !ok then (s.setPhase t .idle, some .raised)
    else (s.build t c, none)

/-- Under the camera's lock: the order of the frames is decided. -/
def underLock (p : Plane) (s : TrackerShard κ θ) (t : θ) (c : Call κ) (i : Nat) (shard : CameraShard κ θ) : Step κ θ :=
  match c with
  | .update camera frame regressionReset =>
    if frame ≤ shard.lastFrameId then
      if p.restarts regressionReset (shard.lastFrameId - frame) then
        (s.atShard t i (.restarting c frame i) fun shard => shard.enter t .reset, none)
      else (s.leave t i fun shard => { shard with outOfOrder := shard.outOfOrder + 1 }, some .refused)
    else (s.atShard t i (.feeding c i) fun shard => shard.feed t camera frame, none)
  | _ => (s.atShard t i (.resetting c i) fun shard => shard.enter t .reset, none)

def step (p : Plane) (s : TrackerShard κ θ) (e : θ × Act κ) : Step κ θ :=
  let t := e.1
  match s.phase t, e.2 with
  | .idle, .call c =>
    if p.offers c then (s.setPhase t (if c.builds && p.peeks then .peeking c else .queueing c), none) else (s, none)
  | .idle, .go _ | _, .call _ => (s, none)
  | .peeking c, .go _ =>
    match s.cameras.get? c.camera with
    | some i => (s.setPhase t (.waiting c i), none)
    | none => (s.setPhase t (.queueing c), none)
  | .queueing c, .go _ =>
    if s.tableLock.isNone then ({ s.setPhase t (.holding c) with tableLock := some t }, none) else (s, none)
  | .holding c, .go ok => s.underTable p t c ok
  | .waiting c i, .go _ =>
    match s.shards[i]? with
    | some shard =>
      if shard.lock.isNone then (s.atShard t i (.locked c i) fun shard => { shard with lock := some t }, none) else (s, none)
    | none => (s, none)
  | .locked c i, .go _ =>
    match s.shards[i]? with
    | some shard => s.underLock p t c i shard
    | none => (s, none)
  | .restarting c frame i, .go ok =>
    if ok then
      (s.atShard t i (.notifying c frame i) fun shard =>
        { shard.exit t with lastFrameId := -1, implicitResets := shard.implicitResets + 1 }, none)
    else (s.leave t i fun shard => shard.exit t, some .raised)
  | .notifying c frame i, .go ok =>
    if ok then (s.atShard t i (.feeding c i) fun shard => shard.feed t c.camera frame, none)
    else (s.leave t i id, some .raised)
  | .feeding _ i, .go ok => (s.leave t i fun shard => shard.exit t, some (if ok then .updated else .raised))
  | .resetting _ i, .go ok =>
    if ok then (s.leave t i fun shard => { shard.exit t with lastFrameId := -1 }, some (.answered true))
    else (s.leave t i fun shard => shard.exit t, some .raised)

/-- Any number of workers, in any order. -/
def run (p : Plane) (events : List (θ × Act κ)) : TrackerShard κ θ × List (Option Outcome) := Machine.exec (step p) {} events

end TrackerShard

end ShipInfer.Tracking
