import ShipInfer.Runtime.Staging
import Mathlib.Logic.Function.Basic

/-!
# Executing batches on a stream

`TensorRTBackend.execute`, `BindingSet.stage_input` and `fetch_output`, and
`PinnedStagingPool`, as the steps of a host thread and of the stream it feeds. What a
host thread enqueues happens later, in order, at any moment up to the synchronize that
waits for it. A copy reads its pinned buffer when it happens.
-/

namespace ShipInfer.Backends.TensorRT

open ShipInfer.Runtime

variable {ρ : Type}

/-- A loaded engine. What it answers for a row depends on the rows before the size it is
run at; an engine of static shape runs at its whole capacity, each row for itself. -/
structure Engine (ρ : Type) where
  inputs : List String
  outputs : List String
  /-- `effective_max_batch_size`, the rows of every binding. -/
  capacity : Nat
  dynamicShapes : Bool
  network : Nat → List (List ρ) → String → List ρ
  network_length : ∀ n ins name, (network n ins name).length = n
  rows_apart : dynamicShapes = false → ∀ n ins name, n ≤ capacity →
    (network capacity ins name).take n = network n (ins.map fun rows => rows.take n) name

structure Batch (ρ : Type) where
  rows : Dict String (List ρ)
  size : Nat

/-- A pinned buffer: its pool, its key, and which allocation of that key it is. -/
structure Buffer where
  pool : Nat
  name : String
  extent : Nat
  serial : Nat
  deriving DecidableEq

/-- `PinnedStagingPool`; the row shape and the element type are those of the binding. -/
structure PinnedStagingPool where
  buffers : Dict (String × Nat) Nat := .empty
  misses : Nat := 0

def maxEntries : Nat := 64

/-- `get`: evicts the oldest entry when the pool is full. -/
def PinnedStagingPool.get (p : PinnedStagingPool) (key : String × Nat) : Nat × PinnedStagingPool :=
  match p.buffers.get? key with
  | some serial => (serial, p)
  | none =>
    let kept := match p.buffers.keys with
      | oldest :: _ => if maxEntries ≤ p.buffers.size then p.buffers.erase oldest else p.buffers
      | [] => p.buffers
    (p.misses, { buffers := kept.set key p.misses, misses := p.misses + 1 })

/-- What is enqueued on a stream. -/
inductive Op (ρ : Type)
  | upload (name : String) (buffer : Buffer)
  | run (batch : Batch ρ)
  | download (name : String) (buffer : Buffer) (rows : Nat)

/-- Where the host thread of an instance stands in `execute`. -/
inductive Phase (ρ : Type)
  | idle
  | staging (batch : Batch ρ) (rest : List (String × List ρ))
  | staged (batch : Batch ρ) (name : String) (buffer : Buffer) (rest : List (String × List ρ))
  | fetching (batch : Batch ρ) (rest : List String)
  | requested (batch : Batch ρ) (name : String) (buffer : Buffer) (rest : List String)

structure Instance (ρ : Type) where
  phase : Phase ρ := .idle
  stream : List (Op ρ) := []
  device : String → List ρ

structure State (ρ : Type) where
  memory : Buffer → List ρ
  staging : Nat → PinnedStagingPool := fun _ => {}
  instances : Nat → Instance ρ

/-- What an observer of the run sees. -/
inductive Seen (ρ : Type)
  | ran (k : Nat) (batch : Batch ρ) (reads : List (List ρ))
  | fetched (k : Nat) (batch : Batch ρ) (name : String) (rows : List ρ)
  | returned (k : Nat) (batch : Batch ρ)
  | raised (k : Nat) (batch : Batch ρ)

/-- `k` stands for the `k`-th claimant of a pool. -/
inductive Event (ρ : Type)
  | execute (k : Nat) (batch : Batch ρ)
  | host (k : Nat)
  /-- The network's enqueue fails. -/
  | refuse (k : Nat)
  | device (k : Nat)
  /-- A thread's image ops stage something of their own. -/
  | write (k : Nat) (name : String) (rows : List ρ)

/-- The claims on the pool, the engines of the instances, and `async_transfers`. -/
structure Setup (ρ : Type) where
  claims : List Claimant
  engine : Nat → Engine ρ
  async : Bool

def Setup.pool (S : Setup ρ) (k : Nat) : Option Nat := (pools S.claims)[k]?

/-- Whether the claimant is an instance. -/
def Setup.serves (S : Setup ρ) (k : Nat) : Bool := (S.claims[k]?.map Claimant.isInstance).getD false

/-- `tensor[:rows].copy_(new)` -/
def overlay (new old : List ρ) : List ρ := new ++ old.drop new.length

namespace State

def setInstance (s : State ρ) (k : Nat) (i : Instance ρ) : State ρ :=
  { s with instances := Function.update s.instances k i }

def setMemory (s : State ρ) (b : Buffer) (rows : List ρ) : State ρ :=
  { s with memory := Function.update s.memory b rows }

/-- `PinnedStagingPool.get` on one of the pools. -/
def getPinned (s : State ρ) (pool : Nat) (name : String) (extent : Nat) : Buffer × State ρ :=
  let r := (s.staging pool).get (name, extent)
  (⟨pool, name, extent, r.1⟩, { s with staging := Function.update s.staging pool r.2 })

/-- `PinnedStagingPool.stage` -/
def stage (s : State ρ) (pool : Nat) (name : String) (rows : List ρ) : Buffer × State ρ :=
  let r := s.getPinned pool name rows.length
  (r.1, r.2.setMemory r.1 rows)

end State

/-! ## The host thread -/

section
variable (S : Setup ρ) (s : State ρ) (k pool : Nat) (i : Instance ρ)

/-- `stage_input`, to the pinned copy or, without async copies, to the end. -/
def stageInput (batch : Batch ρ) (name : String) (rows : List ρ) (rest : List (String × List ρ)) :
    State ρ × List (Seen ρ) :=
  let e := S.engine k
  if name ∉ e.inputs ++ e.outputs ∨ e.capacity < rows.length then
    (s.setInstance k { i with phase := .idle }, [.raised k batch])
  else if S.async then
    let r := s.stage pool ("in:" ++ name) rows
    (r.2.setInstance k { i with phase := .staged batch name r.1 rest }, [])
  else if i.stream.isEmpty then
    (s.setInstance k { i with
      phase := .staging batch rest
      device := Function.update i.device name (overlay rows (i.device name)) }, [])
  else (s, [])

/-- The copy to the device that `stage_input` enqueues. -/
def uploadInput (batch : Batch ρ) (name : String) (buffer : Buffer) (rest : List (String × List ρ)) :
    State ρ × List (Seen ρ) :=
  (s.setInstance k { i with phase := .staging batch rest, stream := i.stream ++ [.upload name buffer] }, [])

/-- `_enqueue`, or the replay of a graph that recorded it. -/
def enqueue (batch : Batch ρ) : State ρ × List (Seen ρ) :=
  (s.setInstance k { i with
    phase := .fetching batch (S.engine k).outputs
    stream := i.stream ++ [.run batch] }, [])

/-- `fetch_output`, up to its synchronize or, without async copies, to the end. -/
def fetchOutput (batch : Batch ρ) (name : String) (rest : List String) : State ρ × List (Seen ρ) :=
  let e := S.engine k
  let rows := min batch.size e.capacity
  if S.async then
    let r := s.getPinned pool ("out:" ++ name) e.capacity
    (r.2.setInstance k { i with
      phase := .requested batch name r.1 rest
      stream := i.stream ++ [.download name r.1 rows] }, [])
  else if i.stream.isEmpty then
    (s.setInstance k { i with phase := .fetching batch rest }, [.fetched k batch name ((i.device name).take rows)])
  else (s, [])

/-- The synchronize of `fetch_output` and the copy out of the pinned buffer. -/
def takeOutput (batch : Batch ρ) (name : String) (buffer : Buffer) (rest : List String) : State ρ × List (Seen ρ) :=
  if i.stream.isEmpty then
    (s.setInstance k { i with phase := .fetching batch rest },
      [.fetched k batch name ((s.memory buffer).take (min batch.size (S.engine k).capacity))])
  else (s, [])

/-- The synchronize at the end of `execute`. -/
def finish (batch : Batch ρ) : State ρ × List (Seen ρ) :=
  if i.stream.isEmpty then (s.setInstance k { i with phase := .idle }, [.returned k batch]) else (s, [])

/-- The next step of `execute` on the host. -/
def host : State ρ × List (Seen ρ) :=
  match i.phase with
  | .idle => (s, [])
  | .staging batch ((name, rows) :: rest) => stageInput S s k pool i batch name rows rest
  | .staging batch [] => enqueue S s k i batch
  | .staged batch name buffer rest => uploadInput s k i batch name buffer rest
  | .fetching batch (name :: rest) => fetchOutput S s k pool i batch name rest
  | .fetching batch [] => finish s k i batch
  | .requested batch name buffer rest => takeOutput S s k i batch name buffer rest

end

/-! ## The stream -/

/-- The rows at which the network runs: `_set_input_shapes`. -/
def Engine.extent (e : Engine ρ) (size : Nat) : Nat := if e.dynamicShapes then size else e.capacity

/-- The network over the bindings. -/
def Engine.apply (e : Engine ρ) (size : Nat) (device : String → List ρ) : String → List ρ := fun name =>
  if name ∈ e.outputs then
    overlay (e.network (e.extent size) (e.inputs.map fun n => (device n).take (e.extent size)) name) (device name)
  else device name

/-- The first operation of the stream happens. -/
def perform (e : Engine ρ) (s : State ρ) (k : Nat) (i : Instance ρ) : State ρ × List (Seen ρ) :=
  match i.stream with
  | [] => (s, [])
  | .upload name buffer :: ops =>
    (s.setInstance k { i with
      stream := ops
      device := Function.update i.device name (overlay (s.memory buffer) (i.device name)) }, [])
  | .run batch :: ops =>
    (s.setInstance k { i with stream := ops, device := e.apply batch.size i.device },
      [.ran k batch (e.inputs.map fun n => (i.device n).take batch.size)])
  | .download name buffer rows :: ops =>
    ((s.setMemory buffer (overlay ((i.device name).take rows) (s.memory buffer))).setInstance k { i with stream := ops },
      [])

def step (S : Setup ρ) (s : State ρ) (event : Event ρ) : State ρ × List (Seen ρ) :=
  match event with
  | .execute k batch =>
    match (s.instances k).phase with
    | .idle =>
      if S.serves k then
        (s.setInstance k { s.instances k with phase := .staging batch batch.rows.entries }, [])
      else (s, [])
    | _ => (s, [])
  | .host k =>
    match S.pool k with
    | some pool => host S s k pool (s.instances k)
    | none => (s, [])
  | .refuse k =>
    match (s.instances k).phase with
    | .staging batch [] => (s.setInstance k { s.instances k with phase := .idle }, [.raised k batch])
    | _ => (s, [])
  | .device k =>
    match S.pool k with
    | some _ => perform (S.engine k) s k (s.instances k)
    | none => (s, [])
  | .write k name rows =>
    match S.pool k with
    | some pool => if S.serves k then (s, []) else ((s.stage pool name rows).2, [])
    | none => (s, [])

end ShipInfer.Backends.TensorRT
