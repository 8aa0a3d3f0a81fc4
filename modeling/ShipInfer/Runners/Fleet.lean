import ShipInfer.Lib.Machine
import ShipInfer.Lib.Dict
import Mathlib.Data.List.Sort
import Mathlib.Data.List.Dedup

/-!
# The fleet's placement map

`add_camera`, `remove_camera` and the last step of `drain` of
`runners/fleet.py`, by any number of callers. Each section under the lock is one
step; what a shard replies comes with the event. The fleet runs throughout.
-/

namespace ShipInfer.Runners

structure FleetConfig where
  /-- The shards there is a channel to. -/
  shards : List Nat
  groupOf : Dict String String

inductive AddOutcome
  | accepted (shard : Nat)
  | exhausted (refusals : List (Nat × String))
  | raised (error : String)
  deriving DecidableEq

inductive AddPhase
  | offering
  | calling (shard : Nat)
  /-- In the `finally` block. -/
  | finishing (outcome : AddOutcome)
  | returned (outcome : AddOutcome)
  deriving DecidableEq

/-- A call of `add_camera` that has its reservation. -/
structure AddCall where
  camera : String
  order : List Nat
  refusals : List (Nat × String) := []
  phase : AddPhase := .offering
  deriving DecidableEq

structure FleetRunner where
  placed : Dict String Nat := .empty
  pending : List String := []
  adds : List AddCall := []

inductive PlacementError
  | notRunning
  | duplicate (shard : Nat)
  | noShard (reasons : List String)
  | unknownCamera
  deriving DecidableEq

inductive AddReply
  | accepted
  | refused (reason : String)
  | raised (error : String)
  deriving DecidableEq

inductive FleetEvent
  /-- The shards seen dead are polled before the lock. -/
  | add (camera : String) (dead : List Nat)
  | offer (i : Nat)
  | reply (i : Nat) (reply : AddReply)
  | finish (i : Nat)
  | remove (camera : String) (dead : List Nat)
  /-- The end of a drain. -/
  | forget

inductive FleetOutput
  | quiet
  | refused (error : PlacementError)
  /-- `RemoveCamera` goes out to the shard. -/
  | removing (camera : String) (shard : Nat)
  deriving DecidableEq

namespace FleetRunner

abbrev Step := FleetRunner × FleetOutput

def load (s : FleetRunner) (shard : Nat) : Nat := s.placed.values.count shard

/-- `(load, id)` in order. -/
def Lighter (s : FleetRunner) (a b : Nat) : Prop := s.load a < s.load b ∨ s.load a = s.load b ∧ a ≤ b

instance (s : FleetRunner) (a b : Nat) : Decidable (s.Lighter a b) := inferInstanceAs (Decidable (_ ∨ _))

def byLoad (cfg : FleetConfig) (s : FleetRunner) : List Nat :=
  (cfg.shards ++ s.placed.values).dedup.insertionSort s.Lighter

/-- Where the placed cameras of a group are. -/
def homes (cfg : FleetConfig) (s : FleetRunner) (group : String) : List Nat :=
  (cfg.groupOf.entries.filterMap fun p => if p.2 = group then s.placed.get? p.1 else none).dedup.insertionSort (· ≤ ·)

def pinToGroup (cfg : FleetConfig) (s : FleetRunner) (camera : String) (order : List Nat) : Except PlacementError (List Nat) :=
  match cfg.groupOf.get? camera with
  | none => .ok order
  | some group =>
    match s.homes cfg group with
    | [] => .ok order
    | [home] => if home ∈ order then .ok [home] else .error (.noShard ["camera group " ++ group ++ " is on a shard that is gone"])
    | _ => .error (.noShard ["camera group " ++ group ++ " is already split across shards"])

/-- The reservation. -/
def add (cfg : FleetConfig) (s : FleetRunner) (camera : String) (dead : List Nat) : Step :=
  if cfg.shards = [] then (s, .refused .notRunning)
  else
    match s.placed.get? camera with
    | some shard => (s, .refused (.duplicate shard))
    | none =>
      match (s.byLoad cfg).filter fun shard => decide (shard ∉ dead) with
      | [] => (s, .refused (.noShard ["every shard's process has exited"]))
      | shard :: rest =>
        match s.pinToGroup cfg camera (shard :: rest) with
        | .error e => (s, .refused e)
        | .ok order =>
          ({ placed := s.placed.set camera (order.headD shard)
             pending := s.pending ++ [camera]
             adds := s.adds ++ [{ camera := camera, order := order }] }, .quiet)

def setCall (s : FleetRunner) (i : Nat) (c : AddCall) : FleetRunner := { s with adds := s.adds.set i c }

/-- One turn of the loop over the shards, up to the RPC. -/
def offer (cfg : FleetConfig) (s : FleetRunner) (i : Nat) (c : AddCall) : FleetRunner :=
  match c.order with
  | [] => s.setCall i { c with phase := .finishing (.exhausted c.refusals) }
  | shard :: rest =>
    if shard ∈ cfg.shards then
      { s.setCall i { c with order := rest, phase := .calling shard } with placed := s.placed.set c.camera shard }
    else s.setCall i { c with order := rest, refusals := c.refusals ++ [(shard, "no longer connected")] }

def reply (s : FleetRunner) (i : Nat) (c : AddCall) (shard : Nat) : AddReply → FleetRunner
  | .accepted =>
    { s.setCall i { c with phase := .finishing (.accepted shard) } with pending := s.pending.filter fun a => decide (a ≠ c.camera) }
  | .refused reason => s.setCall i { c with refusals := c.refusals ++ [(shard, reason)], phase := .offering }
  | .raised e => s.setCall i { c with phase := .finishing (.raised e) }

/-- What is still pending is taken back. -/
def finish (s : FleetRunner) (i : Nat) (c : AddCall) (outcome : AddOutcome) : FleetRunner :=
  let s' := s.setCall i { c with phase := .returned outcome }
  if c.camera ∈ s.pending then
    { s' with pending := s.pending.filter fun a => decide (a ≠ c.camera), placed := s.placed.erase c.camera }
  else s'

def remove (cfg : FleetConfig) (s : FleetRunner) (camera : String) (dead : List Nat) : Step :=
  if cfg.shards = [] then (s, .refused .notRunning)
  else
    match s.placed.get? camera with
    | none => (s, .refused .unknownCamera)
    | some shard =>
      if camera ∈ s.pending then (s, .refused .unknownCamera)
      else if shard ∈ dead then ({ s with placed := s.placed.erase camera }, .quiet)
      else ({ s with placed := s.placed.erase camera }, .removing camera shard)

def forget (s : FleetRunner) : FleetRunner := { s with placed := s.placed.filter fun p => decide (p.1 ∈ s.pending) }

def step (cfg : FleetConfig) (s : FleetRunner) : FleetEvent → Step
  | .add camera dead => s.add cfg camera dead
  | .offer i =>
    match s.adds[i]? with
    | some c => if c.phase = .offering then (s.offer cfg i c, .quiet) else (s, .quiet)
    | none => (s, .quiet)
  | .reply i reply =>
    match s.adds[i]? with
    | some c =>
      match c.phase with
      | .calling shard => (s.reply i c shard reply, .quiet)
      | _ => (s, .quiet)
    | none => (s, .quiet)
  | .finish i =>
    match s.adds[i]? with
    | some c =>
      match c.phase with
      | .finishing outcome => (s.finish i c outcome, .quiet)
      | _ => (s, .quiet)
    | none => (s, .quiet)
  | .remove camera dead => s.remove cfg camera dead
  | .forget => (s.forget, .quiet)

def run (cfg : FleetConfig) (events : List FleetEvent) : FleetRunner × List FleetOutput :=
  Machine.exec (step cfg) {} events

/-- Placed, and not pending. -/
def Confirmed (s : FleetRunner) (camera : String) (shard : Nat) : Prop :=
  s.placed.get? camera = some shard ∧ camera ∉ s.pending

end FleetRunner

end ShipInfer.Runners
