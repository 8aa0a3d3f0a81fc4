import ShipInfer.Runners.Fleet
import ShipInfer.Runners.Service
import Mathlib.Logic.Function.Basic

/-!
# A fleet and its shards

The launcher's placement map over shards that answer as `ShardService` does,
each with its topology installed. A call to a shard goes out, is handled, and
comes back or raises; it may raise after it was handled, and one that raises
before it was handled never is. A shard that has died stays dead, and a poll
sees some of the dead.
-/

namespace ShipInfer.Runners

structure RemoveCall where
  camera : String
  shard : Nat
  /-- Neither handled nor lost. -/
  waiting : Bool := true
  deriving DecidableEq

structure Deployment where
  fleet : FleetRunner := {}
  shards : Nat → ShardService
  dead : List Nat := []
  /-- What the shard answered to the call a placement waits for. -/
  answers : Nat → Option ServiceReply := fun _ => none
  removals : List RemoveCall := []
  /-- The shards each running drain has still to ask. -/
  drains : List (Option (List Nat)) := []

def Refusal.reason : Refusal → String
  | .state .stopped => "stopped and takes no cameras; place this one on another shard"
  | .state .draining => "draining and takes no cameras; place this one on another shard"
  | .state .drained => "drained and takes no cameras; place this one on another shard"
  | .runner (.duplicateCamera cameraId) => "camera " ++ cameraId ++ " is already running; remove it before adding it again"
  | .runner (.raised error) => error
  | .unreadable error => error
  | _ => "takes no cameras; place this one on another shard"

def ServiceReply.toAddReply : ServiceReply → AddReply
  | .accepted => .accepted
  | .refused why => .refused why.reason
  | _ => .refused ""

inductive DeploymentEvent
  | add (camera : String) (polled : List Nat)
  | offer (i : Nat)
  | addHandled (i : Nat) (answer : Except String Unit)
  | addReplied (i : Nat)
  | addRaises (i : Nat) (error : String)
  | finish (i : Nat)
  | remove (camera : String) (polled : List Nat)
  | removeHandled (j : Nat) (answer : Except String Bool)
  /-- It raises unhandled. -/
  | removeRaises (j : Nat)
  | drain
  /-- The next shard handles the drain, or the call raises unhandled. -/
  | drainShard (k : Nat) (answer : Option DrainAnswer)
  | forget (k : Nat)
  | dies (shard : Nat)

namespace Deployment

/-- A shard up and running, with no cameras. -/
def installed : ShardService :=
  { runner := some { topology := "", builtWith := ⟨"", [], []⟩, running := true } }

def start : Deployment := { shards := fun _ => installed }

/-- The dead among the shards of a poll. -/
def seen (d : Deployment) (polled : List Nat) : List Nat := polled.filter fun shard => decide (shard ∈ d.dead)

def setShard (d : Deployment) (shard : Nat) (s : ShardService) : Deployment :=
  { d with shards := Function.update d.shards shard s }

def setAnswer (d : Deployment) (i : Nat) (answer : Option ServiceReply) : Deployment :=
  { d with answers := Function.update d.answers i answer }

def launch (cfg : FleetConfig) (d : Deployment) (e : FleetEvent) : Deployment := { d with fleet := (d.fleet.step cfg e).1 }

/-- The shard a placement waits for. -/
def callee (d : Deployment) (i : Nat) : Option (String × Nat) :=
  match d.fleet.adds[i]? with
  | some { camera, phase := .calling shard, .. } => some (camera, shard)
  | _ => none

def addHandled (d : Deployment) (i : Nat) (answer : Except String Unit) : Deployment :=
  match d.callee i with
  | none => d
  | some (camera, shard) =>
    if shard ∈ d.dead ∨ d.answers i ≠ none then d
    else
      let r := (d.shards shard).addCamera (.ok camera) answer
      (d.setShard shard r.1).setAnswer i (some r.2)

def addReplied (cfg : FleetConfig) (d : Deployment) (i : Nat) : Deployment :=
  match d.answers i with
  | none => d
  | some reply => (d.launch cfg (.reply i reply.toAddReply)).setAnswer i none

def addRaises (cfg : FleetConfig) (d : Deployment) (i : Nat) (error : String) : Deployment :=
  match d.callee i with
  | none => d
  | some _ => (d.launch cfg (.reply i (.raised error))).setAnswer i none

def remove (cfg : FleetConfig) (d : Deployment) (camera : String) (polled : List Nat) : Deployment :=
  let r := d.fleet.step cfg (.remove camera (d.seen polled))
  match r.2 with
  | .removing camera shard => { d with fleet := r.1, removals := d.removals ++ [{ camera := camera, shard := shard }] }
  | _ => { d with fleet := r.1 }

def removeHandled (d : Deployment) (j : Nat) (answer : Except String Bool) : Deployment :=
  match d.removals[j]? with
  | none => d
  | some r =>
    if r.waiting = false ∨ r.shard ∈ d.dead then d
    else
      { d.setShard r.shard ((d.shards r.shard).removeCamera r.camera answer).1 with
        removals := d.removals.set j { r with waiting := false } }

def removeRaises (d : Deployment) (j : Nat) : Deployment :=
  match d.removals[j]? with
  | none => d
  | some r => { d with removals := d.removals.set j { r with waiting := false } }

def drainShard (d : Deployment) (k : Nat) (answer : Option DrainAnswer) : Deployment :=
  match d.drains[k]? with
  | some (some (shard :: rest)) =>
    let asked := { d with drains := d.drains.set k (some rest) }
    match answer with
    | some a => if shard ∈ d.dead then asked else asked.setShard shard ((d.shards shard).drain a).1
    | none => asked
  | _ => d

def forget (cfg : FleetConfig) (d : Deployment) (k : Nat) : Deployment :=
  match d.drains[k]? with
  | some (some []) => { d.launch cfg .forget with drains := d.drains.set k none }
  | _ => d

def step (cfg : FleetConfig) (d : Deployment) : DeploymentEvent → Deployment
  | .add camera polled => d.launch cfg (.add camera (d.seen polled))
  | .offer i => d.launch cfg (.offer i)
  | .addHandled i answer => d.addHandled i answer
  | .addReplied i => d.addReplied cfg i
  | .addRaises i error => d.addRaises cfg i error
  | .finish i => d.launch cfg (.finish i)
  | .remove camera polled => d.remove cfg camera polled
  | .removeHandled j answer => d.removeHandled j answer
  | .removeRaises j => d.removeRaises j
  | .drain => { d with drains := d.drains ++ [some cfg.shards] }
  | .drainShard k answer => d.drainShard k answer
  | .forget k => d.forget cfg k
  | .dies shard => { d with dead := shard :: d.dead }

/-- The deployment from its start, through the events in order. -/
def run (cfg : FleetConfig) (events : List DeploymentEvent) : Deployment :=
  (Machine.exec (fun d e => (step cfg d e, ())) start events).1

/-- The shard lives and runs the camera. -/
def Runs (d : Deployment) (shard : Nat) (camera : String) : Prop :=
  shard ∉ d.dead ∧ camera ∈ (d.shards shard).cameras

instance (d : Deployment) (shard : Nat) (camera : String) : Decidable (d.Runs shard camera) :=
  inferInstanceAs (Decidable (_ ∧ _))

/-- No camera is run by two shards. -/
def Exclusive (d : Deployment) : Prop :=
  ∀ camera shard shard', d.Runs shard camera → d.Runs shard' camera → shard = shard'

end Deployment

end ShipInfer.Runners
