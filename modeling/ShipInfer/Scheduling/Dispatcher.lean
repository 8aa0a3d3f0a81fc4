import Mathlib.Data.List.Sort
import ShipInfer.Lib.Dict
import ShipInfer.Lib.Machine

/-!
# The dispatcher, with sequence affinity

`Dispatcher.dispatch` of `scheduling/dispatcher.py` and
`SequenceAffinityPolicy.select` of `scheduling/policies/sequence_affinity.py`. Any
number of threads dispatch at once: a step is what one call does up to the next
thing another thread can see. The fallback policy picks by chance, so its pick is
part of the step, and so is what an instance's queue answers.
-/

namespace ShipInfer.Scheduling

/-- What `enqueue` does: it returns, or raises `QueueFullError` or another error. -/
inductive Enqueue
  | taken
  | full
  | raised
  deriving DecidableEq

variable {ι : Type} [DecidableEq ι]

/-- Where a call of `dispatch` is. -/
inductive Phase (ι : Type)
  /-- It has the ready instances. -/
  | selecting (ready : List ι)
  /-- The fallback has chosen, and the pin is to be written. -/
  | assigning (ready : List ι) (chosen : ι)
  | placing (ready : List ι) (first : ι)
  | spilling (remaining : List ι)
  | finished
  deriving DecidableEq

structure Call (ι : Type) where
  camera : String
  phase : Phase ι
  deriving DecidableEq

structure State (ι : Type) where
  maxSequences : Nat := 4096
  instances : List ι
  isReady : ι → Bool
  assigned : Dict String ι := .empty
  calls : List (Call ι) := []

inductive Event (ι : Type)
  | dispatch (camera : String)
  /-- The pin is looked up; the fallback's pick, if it is asked. -/
  | select (i pick : Nat)
  /-- The piece under the policy's lock. -/
  | assign (i : Nat)
  /-- What the chosen queue answers, and the depths a spill sorts by. -/
  | enqueue (i : Nat) (answer : Enqueue) (depth : ι → Nat)
  | spill (i : Nat) (answer : Enqueue)
  /-- An instance gets ready, or stops being so. -/
  | ready (instance_ : ι) (isReady : Bool)
  /-- `attach_remote` -/
  | attach (candidates : List ι)

/-- How a call ends. -/
inductive Output (ι : Type)
  | quiet
  | placed (camera : String) (instance_ : ι)
  | failed (camera : String)
  deriving DecidableEq

namespace State

def readyInstances (s : State ι) : List ι := s.instances.filter s.isReady

def setCall (s : State ι) (i : Nat) (call : Call ι) : State ι := { s with calls := s.calls.set i call }

def finish (s : State ι) (i : Nat) (camera : String) : State ι := s.setCall i { camera := camera, phase := .finished }

def dispatch (s : State ι) (camera : String) : State ι × Output ι :=
  if s.readyInstances = [] then (s, .failed camera)
  else ({ s with calls := s.calls ++ [{ camera := camera, phase := .selecting s.readyInstances }] }, .quiet)

/-- The fallback's choice among the candidates. -/
def fallback (candidates : List ι) (pick : Nat) : Option ι := candidates[pick % candidates.length]?

/-- The pin of a camera, where it still holds. -/
def pin (s : State ι) (camera : String) (ready : List ι) : Option ι :=
  if camera = "" then none
  else (s.assigned.get? camera).filter fun pinned => decide (s.isReady pinned = true ∧ pinned ∈ ready)

/-- `select`, up to the lock. -/
def select (s : State ι) (i pick : Nat) (camera : String) (ready : List ι) : State ι :=
  match s.pin camera ready with
  | some pinned => s.setCall i { camera := camera, phase := .placing ready pinned }
  | none =>
    match fallback ready pick with
    | none => s
    | some chosen =>
      if camera = "" then s.setCall i { camera := camera, phase := .placing ready chosen }
      else s.setCall i { camera := camera, phase := .assigning ready chosen }

/-- A full table is dropped as a whole. -/
def assign (s : State ι) (camera : String) (chosen : ι) : State ι :=
  let assigned := if s.maxSequences ≤ s.assigned.size then .empty else s.assigned
  { s with assigned := assigned.set camera chosen }

/-- `sorted(..., key=depth)`, which is stable. -/
def spillOrder (ready : List ι) (first : ι) (depth : ι → Nat) : List ι :=
  (ready.filter fun i => decide (i ≠ first)).insertionSort fun i j => depth i ≤ depth j

/-- A queue was full: on to the next, or the last error is raised. -/
def spillTo (s : State ι) (i : Nat) (camera : String) (remaining : List ι) : State ι × Output ι :=
  if remaining = [] then (s.finish i camera, .failed camera)
  else (s.setCall i { camera := camera, phase := .spilling remaining }, .quiet)

def step (s : State ι) : Event ι → State ι × Output ι
  | .dispatch camera => s.dispatch camera
  | .select i pick =>
    match s.calls[i]? with
    | some { camera, phase := .selecting ready } => (s.select i pick camera ready, .quiet)
    | _ => (s, .quiet)
  | .assign i =>
    match s.calls[i]? with
    | some { camera, phase := .assigning ready chosen } =>
      ((s.assign camera chosen).setCall i { camera := camera, phase := .placing ready chosen }, .quiet)
    | _ => (s, .quiet)
  | .enqueue i answer depth =>
    match s.calls[i]? with
    | some { camera, phase := .placing ready first } =>
      match answer with
      | .taken => (s.finish i camera, .placed camera first)
      | .raised => (s.finish i camera, .failed camera)
      | .full => s.spillTo i camera (spillOrder ready first depth)
    | _ => (s, .quiet)
  | .spill i answer =>
    match s.calls[i]? with
    | some { camera, phase := .spilling (candidate :: remaining) } =>
      match answer with
      | .taken => (s.finish i camera, .placed camera candidate)
      | .raised => (s.finish i camera, .failed camera)
      | .full => s.spillTo i camera remaining
    | _ => (s, .quiet)
  | .ready instance_ isReady => ({ s with isReady := Function.update s.isReady instance_ isReady }, .quiet)
  | .attach candidates => ({ s with instances := s.instances ++ candidates }, .quiet)

def run (s : State ι) (events : List (Event ι)) : State ι × List (Output ι) := Machine.exec step s events

end State

end ShipInfer.Scheduling
