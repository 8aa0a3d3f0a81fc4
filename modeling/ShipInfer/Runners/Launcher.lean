import ShipInfer.Runners.Fleet

/-!
# The fleet through its starts and stops

`start`, `stop` and `drain` of `runners/fleet.py` beside its placements, by any
number of callers. `start` and `stop` hold the life-cycle lock to their end, so at
most one of them is under way; placements go on beside it. Each section under the
map's lock is one step, and what a shard replies comes with the event.
-/

namespace ShipInfer.Runners

inductive Lifecycle
  | idle
  /-- `_do_start` has not cleared the maps yet. -/
  | planning
  | installing (plan : List Nat)
  /-- `_do_stop` has not released the channels yet. -/
  | stopping
  deriving DecidableEq

structure Launcher extends FleetRunner where
  clients : List Nat := []
  running : Bool := false
  lifecycle : Lifecycle := .idle
  /-- The calls of `drain` that have not forgotten the placements yet. -/
  drains : Nat := 0

inductive LauncherEvent
  | camera (e : FleetEvent)
  | drain
  | start
  | clear (plan : List Nat)
  | connect (shard : Nat)
  | started
  | fail
  | stop
  | release

inductive LauncherOutput
  | camera (o : FleetOutput)
  /-- A placement on a shard there is no channel to. -/
  | keyError (shard : Nat)
  | quiet
  deriving DecidableEq

namespace Launcher

/-- `_check_running` passes. -/
def up (s : Launcher) : Bool := s.running && !s.clients.isEmpty

def config (groupOf : Dict String String) (s : Launcher) : FleetConfig := { shards := s.clients, groupOf := groupOf }

def notRunning (s : Launcher) : String :=
  "the fleet is not running; call start() before managing cameras (" ++ toString s.clients.length ++ " shard(s) connected)"

def lift (s : Launcher) (r : FleetRunner.Step) : Launcher × LauncherOutput := ({ s with toFleetRunner := r.1 }, .camera r.2)

/-- The check is made again at each turn of the loop over the shards. -/
def offer (groupOf : Dict String String) (s : Launcher) (i : Nat) (c : AddCall) : FleetRunner :=
  if c.order ≠ [] ∧ s.up = false then s.setCall i { c with phase := .finishing (.raised s.notRunning) }
  else s.toFleetRunner.offer (s.config groupOf) i c

def remove (groupOf : Dict String String) (s : Launcher) (camera : String) (dead : List Nat) : Launcher × LauncherOutput :=
  match s.placed.get? camera with
  | some shard =>
    if camera ∉ s.pending ∧ shard ∉ dead ∧ shard ∉ s.clients then (s, .keyError shard)
    else s.lift (s.toFleetRunner.remove (s.config groupOf) camera dead)
  | none => s.lift (s.toFleetRunner.remove (s.config groupOf) camera dead)

def cameraStep (groupOf : Dict String String) (s : Launcher) : FleetEvent → Launcher × LauncherOutput
  | .add camera dead =>
    if s.up then s.lift (s.add (s.config groupOf) camera dead) else (s, .camera (.refused .notRunning))
  | .offer i =>
    match s.adds[i]? with
    | some c => if c.phase = .offering then s.lift (s.offer groupOf i c, .quiet) else (s, .quiet)
    | none => (s, .quiet)
  | .reply i reply => s.lift (s.toFleetRunner.step (s.config groupOf) (.reply i reply))
  | .finish i => s.lift (s.toFleetRunner.step (s.config groupOf) (.finish i))
  | .remove camera dead => if s.up then s.remove groupOf camera dead else (s, .camera (.refused .notRunning))
  | .forget => if s.drains = 0 then (s, .quiet) else ({ s with toFleetRunner := s.forget, drains := s.drains - 1 }, .quiet)

def step (groupOf : Dict String String) (s : Launcher) : LauncherEvent → Launcher × LauncherOutput
  | .camera e => s.cameraStep groupOf e
  | .drain => if s.up then ({ s with drains := s.drains + 1 }, .quiet) else (s, .camera (.refused .notRunning))
  | .start => if s.lifecycle = .idle ∧ s.running = false then ({ s with lifecycle := .planning }, .quiet) else (s, .quiet)
  | .clear plan =>
    if s.lifecycle = .planning then
      ({ s with placed := .empty, pending := [], lifecycle := .installing plan }, .quiet)
    else (s, .quiet)
  | .connect shard =>
    match s.lifecycle with
    | .installing plan =>
      if shard ∈ plan ∧ shard ∉ s.clients then ({ s with clients := s.clients ++ [shard] }, .quiet) else (s, .quiet)
    | _ => (s, .quiet)
  | .started =>
    match s.lifecycle with
    | .installing plan =>
      if ∀ shard ∈ plan, shard ∈ s.clients then ({ s with running := true, lifecycle := .idle }, .quiet) else (s, .quiet)
    | _ => (s, .quiet)
  | .fail =>
    match s.lifecycle with
    | .planning | .installing _ => ({ s with lifecycle := .stopping }, .quiet)
    | _ => (s, .quiet)
  | .stop => if s.lifecycle = .idle ∧ s.running = true then ({ s with running := false, lifecycle := .stopping }, .quiet) else (s, .quiet)
  | .release => if s.lifecycle = .stopping then ({ s with clients := [], lifecycle := .idle }, .quiet) else (s, .quiet)

def run (groupOf : Dict String String) (events : List LauncherEvent) : Launcher × List LauncherOutput :=
  Machine.exec (step groupOf) {} events

/-- `cameras` in `_do_stats`. -/
def cameras (s : Launcher) : Int := s.placed.size - s.pending.length

end Launcher

end ShipInfer.Runners
