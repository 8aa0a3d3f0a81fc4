import ShipInfer.Lib.Dict
import ShipInfer.Lib.Machine

/-!
# The actors of an ingest manager

`add_camera`, `remove_camera` and `stop` of `ingest/manager.py` and of
`ingest/manager.cpp`, by any number of callers, with the `start` and the
`request_stop` of the actors they call. Each section under the manager's lock is
one step, and so is each call on an actor's stop signal.
-/

namespace ShipInfer.Ingest

inductive Thread
  | unstarted
  | running
  | finished
  deriving DecidableEq

/-- How far the `add_camera` that built an actor is. -/
inductive Adding
  | inserted
  /-- `start` has cleared the stop signal and not made the thread. -/
  | cleared
  /-- The re-check is still to come. -/
  | started
  | returned
  deriving DecidableEq

structure CameraActor where
  camera : String
  stop : Bool := false
  thread : Thread := .unstarted
  adding : Adding := .inserted
  deriving DecidableEq

/-- It runs and has not been told to stop. -/
def CameraActor.live (a : CameraActor) : Bool := decide (a.thread = .running) && !a.stop

structure IngestManager where
  /-- Every actor there ever was; its place is its identity. -/
  built : List CameraActor := []
  actors : Dict String Nat := .empty
  /-- For each removal, stop and refused add: the `request_stop` calls still to come. -/
  stopping : List (List Nat) := []

inductive IngestEvent
  | add (camera : String)
  | clear (i : Nat)
  | launch (i : Nat)
  | launchFails (i : Nat)
  | recheck (i : Nat)
  | remove (camera : String)
  | stop
  | requestStop (k : Nat)
  /-- The actor's thread sets its own stop signal. -/
  | halt (i : Nat)
  | finish (i : Nat)
  deriving DecidableEq

inductive IngestOutput
  | quiet
  | duplicate (camera : String)
  | notRunning (camera : String) (running : List String)
  | removedWhileStarting (camera : String)
  | raised
  deriving DecidableEq

namespace IngestManager

def setActor (s : IngestManager) (i : Nat) (a : CameraActor) : IngestManager := { s with built := s.built.set i a }

def add (s : IngestManager) (camera : String) : IngestManager × IngestOutput :=
  if s.actors.contains camera then (s, .duplicate camera)
  else ({ s with built := s.built ++ [{ camera := camera }], actors := s.actors.set camera s.built.length }, .quiet)

/-- A forgotten actor is told to stop, and the add is refused. -/
def recheck (s : IngestManager) (i : Nat) (a : CameraActor) : IngestManager × IngestOutput :=
  if s.actors.get? a.camera = some i then (s.setActor i { a with adding := .returned }, .quiet)
  else ({ s.setActor i { a with adding := .returned } with stopping := s.stopping ++ [[i]] }, .removedWhileStarting a.camera)

def remove (s : IngestManager) (camera : String) : IngestManager × IngestOutput :=
  match s.actors.get? camera with
  | none => (s, .notRunning camera (s.actors.keys.mergeSort fun a b => decide (a ≤ b)))
  | some i => ({ s with actors := s.actors.erase camera, stopping := s.stopping ++ [[i]] }, .quiet)

/-- Every actor is signalled, and then once more before it is joined. -/
def stop (s : IngestManager) : IngestManager :=
  { s with actors := .empty, stopping := s.stopping ++ [s.actors.values ++ s.actors.values] }

def requestStop (s : IngestManager) (k : Nat) : IngestManager :=
  match s.stopping[k]? with
  | some (i :: rest) =>
    let s := { s with stopping := s.stopping.set k rest }
    match s.built[i]? with
    | some a => s.setActor i { a with stop := true }
    | none => s
  | _ => s

/-- A step of one actor, when the actor is there and `p` says that it can be made. -/
def onActor (s : IngestManager) (i : Nat) (p : CameraActor → Bool) (f : CameraActor → IngestManager × IngestOutput) :
    IngestManager × IngestOutput :=
  match s.built[i]? with
  | some a => if p a then f a else (s, .quiet)
  | none => (s, .quiet)

def step (s : IngestManager) : IngestEvent → IngestManager × IngestOutput
  | .add camera => s.add camera
  | .clear i =>
    s.onActor i (fun a => decide (a.adding = .inserted)) fun a => (s.setActor i { a with stop := false, adding := .cleared }, .quiet)
  | .launch i =>
    s.onActor i (fun a => decide (a.adding = .cleared)) fun a => (s.setActor i { a with thread := .running, adding := .started }, .quiet)
  | .launchFails i =>
    s.onActor i (fun a => decide (a.adding = .cleared)) fun a => (s.setActor i { a with adding := .returned }, .raised)
  | .recheck i => s.onActor i (fun a => decide (a.adding = .started)) (s.recheck i)
  | .remove camera => s.remove camera
  | .stop => (s.stop, .quiet)
  | .requestStop k => (s.requestStop k, .quiet)
  | .halt i =>
    s.onActor i (fun a => decide (a.thread = .running)) fun a => (s.setActor i { a with stop := true }, .quiet)
  | .finish i =>
    s.onActor i (fun a => decide (a.thread = .running)) fun a => (s.setActor i { a with thread := .finished }, .quiet)

def run (events : List IngestEvent) : IngestManager × List IngestOutput := Machine.exec step {} events

/-- No add, removal or stop is under way: at most it waits for threads. -/
def Quiet (s : IngestManager) : Prop :=
  (∀ a ∈ s.built, a.adding = .returned) ∧ ∀ todo ∈ s.stopping, todo = []

/-- Every started actor is in the map or has been told to stop. -/
def NoOrphan (s : IngestManager) : Prop :=
  ∀ i a, s.built[i]? = some a → a.thread ≠ .unstarted → s.actors.get? a.camera = some i ∨ a.stop = true

/-- No two actors of a camera both run untold. -/
def NoTwins (s : IngestManager) : Prop :=
  ∀ (i j : Nat) (a b : CameraActor), s.built[i]? = some a → s.built[j]? = some b → a.camera = b.camera →
    a.live = true → b.live = true → i = j

end IngestManager

end ShipInfer.Ingest
