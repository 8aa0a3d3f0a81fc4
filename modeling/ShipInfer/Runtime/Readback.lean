import Mathlib
import ShipInfer.Lib.Dict
import ShipInfer.Lib.Machine

/-!
# The staged readback

`TorchImageOps._to_host` of `runtime/ops/torch_ops.py` on a device, with the staging pool of
`runtime/memory/staging.py` it copies through. The device works off its stream in order and at
its own pace: what it has not completed, it may have half done. A tensor is kept by its rows
along the first axis, and one without axes is one row.
-/

namespace ShipInfer.Runtime

structure DeviceTensor (ρ : Type) where
  shape : List Nat
  dtype : String
  rows : Nat → ρ

def DeviceTensor.count {ρ : Type} (t : DeviceTensor ρ) : Nat := t.shape.headD 1

/-- A host array: a block of host memory of a shape and a type. -/
structure HostArray where
  block : Nat
  shape : List Nat
  dtype : String
  deriving DecidableEq

/-- `PinnedStagingPool`; a buffer is a block of host memory. -/
structure PinnedStagingPool where
  buffers : Dict (String × List Nat × String) Nat := .empty
  maxEntries : Nat := 64
  positive : 0 < maxEntries := by decide

/-- What a request for page-locked memory gets: a block, or a refusal while a capture is on its
way, or one because there is none left. -/
inductive Grant
  | block (b : Nat)
  | capturing
  | exhausted
  deriving DecidableEq

/-- `DeviceError` and `RuntimeError` -/
inductive StagingError
  | device
  | runtime
  deriving DecidableEq

/-- The pool without the entry that came first. -/
def PinnedStagingPool.evicted (p : PinnedStagingPool) : Dict (String × List Nat × String) Nat :=
  match p.buffers.entries with
  | [] => p.buffers
  | entry :: _ => p.buffers.erase entry.1

/-- `PinnedStagingPool.get` -/
def PinnedStagingPool.get (p : PinnedStagingPool) (key : String × List Nat × String) (grant : Grant) :
    Except StagingError (Nat × PinnedStagingPool) :=
  match p.buffers.get? key with
  | some b => .ok (b, p)
  | none =>
    match grant with
    | .capturing => .error .device
    | .exhausted => .error .runtime
    | .block b =>
      let kept := if p.maxEntries ≤ p.buffers.size then p.evicted else p.buffers
      .ok (b, { p with buffers := kept.set key b })

/-- What is asked of the device: to compute the tensor, to copy rows of it to a block of host
memory, to mark an event. -/
inductive StreamOp (ρ : Type)
  | compute (rows : Nat → ρ)
  | copy (block lo hi : Nat)
  | record

/-- Where a call stands. `index` is that of the loop, and the number of spans after it; `chunk`
is the span whose event is waited for, or whose rows are copied out. -/
inductive Phase
  | cpu
  | copy (index : Nat)
  | record (index : Nat)
  | synchronize (index chunk : Nat)
  | drain (index chunk : Nat)
  deriving DecidableEq

structure Call (ρ : Type) where
  tensor : DeviceTensor ρ
  /-- The block of the array to be returned. -/
  result : Nat
  staged : Nat × Nat := (0, 0)
  events : Nat × Nat := (0, 0)
  phase : Phase := .cpu

/-- The image ops of one thread, its stream and the memory of both. -/
structure TorchImageOps (ρ : Type) where
  staging : Option PinnedStagingPool
  eventCache : Dict String (Nat × Nat) := .empty
  eventsMade : Nat := 0
  /-- How much of the stream an event waits for. -/
  marks : Nat → Nat
  host : Nat → Nat → ρ
  device : Nat → ρ
  issued : List (StreamOp ρ) := []
  completed : Nat := 0
  returned : List (HostArray × DeviceTensor ρ) := []
  running : Option (Call ρ) := none

/-- A call of the thread, with what the allocators answer it; a step of the running call; the
device completes what is next, or does a part of it. -/
inductive ReadbackStep (ρ : Type)
  | call (tensor : DeviceTensor ρ) (name : String) (a b : Grant) (fresh : Nat)
  | host
  | complete
  | partly (junk : Nat → ρ)

namespace TorchImageOps

/-- `_STAGE_CHUNK_ELEMENTS` -/
def stageChunkElements : Nat := 2 * 1024 * 1024

/-- `_stage_rows` -/
def stageRows (shape : List Nat) : Nat := max 1 (stageChunkElements / max 1 shape.tail.prod)

/-- The spans of a tensor: how many, and where one begins and ends. -/
def spans (shape : List Nat) : Nat := (shape.headD 1 + stageRows shape - 1) / stageRows shape

def spanLo (shape : List Nat) (k : Nat) : Nat := k * stageRows shape

def spanHi (shape : List Nat) (k : Nat) : Nat := min (k * stageRows shape + stageRows shape) (shape.headD 1)

def cacheLimit : Nat := 32

/-- The one of a pair that a span uses: `[index % 2]`. -/
def pick (pair : Nat × Nat) (k : Nat) : Nat := if k % 2 = 0 then pair.1 else pair.2

variable {ρ : Type} (s : TorchImageOps ρ)

/-- `_stage_events` -/
def stageEvents (name : String) : (Nat × Nat) × TorchImageOps ρ :=
  match s.eventCache.get? name with
  | some pair => (pair, s)
  | none =>
    let pair := (s.eventsMade, s.eventsMade + 1)
    let cache := if cacheLimit ≤ s.eventCache.size then .empty else s.eventCache
    (pair, { s with eventCache := cache.set name pair, eventsMade := s.eventsMade + 2 })

def finish (c : Call ρ) : TorchImageOps ρ :=
  { s with
    running := none
    returned := s.returned ++ [(⟨c.result, c.tensor.shape, c.tensor.dtype⟩, c.tensor)] }

/-- The two staging buffers, if the pool has them, and the pool afterwards. -/
def stagePair (pool : PinnedStagingPool) (t : DeviceTensor ρ) (name : String) (a b : Grant) :
    Except StagingError (Nat × Nat) × PinnedStagingPool :=
  let shape := stageRows t.shape :: t.shape.tail
  match pool.get (name ++ ":a", shape, t.dtype) a with
  | .error e => (.error e, pool)
  | .ok (first, pool) =>
    match pool.get (name ++ ":b", shape, t.dtype) b with
    | .error e => (.error e, pool)
    | .ok (second, pool) => (.ok (first, second), pool)

/-- `_to_host`, up to its first wait; the tensor is still being computed. -/
def toHost (t : DeviceTensor ρ) (name : String) (a b : Grant) (fresh : Nat) : TorchImageOps ρ :=
  let s : TorchImageOps ρ := { s with issued := s.issued ++ [.compute t.rows] }
  let call : Call ρ := { tensor := t, result := fresh }
  match s.staging with
  | none => { s with running := some call }
  | some pool =>
    if t.shape = [] then { s with running := some call }
    else if t.count = 0 then s.finish call
    else if spans t.shape = 1 then { s with running := some call }
    else
      match stagePair pool t name a b with
      | (.error .device, pool) => { s with staging := some pool, running := some call }
      | (.error .runtime, _) => { s with staging := none, running := some call }
      | (.ok staged, pool) =>
        let s := { s with staging := some pool }
        let events := (s.stageEvents name).1
        { (s.stageEvents name).2 with running := some { call with staged, events, phase := .copy 0 } }

/-- The loop's next turn, or what follows it. -/
def nextTurn (n k : Nat) : Phase := if k + 1 < n then .copy (k + 1) else .synchronize n (n - 1)

/-- Rows `lo` to `hi` of a block of host memory, written from another memory. -/
def write (block lo hi : Nat) (source : Nat → ρ) : TorchImageOps ρ :=
  { s with host := fun b x => if b = block ∧ lo ≤ x ∧ x < hi then source (x - lo) else s.host b x }

/-- The running call goes on, unless it waits. -/
def goOn : Option (TorchImageOps ρ) :=
  match s.running with
  | none => none
  | some c =>
    let n := spans c.tensor.shape
    let lo := spanLo c.tensor.shape
    let hi := spanHi c.tensor.shape
    match c.phase with
    | .cpu =>
      if s.completed = s.issued.length then
        some ((s.write c.result 0 c.tensor.count s.device).finish c)
      else none
    | .copy k =>
      some { s with
        issued := s.issued ++ [.copy (pick c.staged k) (lo k) (hi k)]
        running := some { c with phase := .record k } }
    | .record k =>
      some { s with
        issued := s.issued ++ [.record]
        marks := Function.update s.marks (pick c.events k) (s.issued.length + 1)
        running := some { c with phase := if k = 0 then nextTurn n k else .synchronize k (k - 1) } }
    | .synchronize k chunk =>
      if s.marks (pick c.events chunk) ≤ s.completed then some { s with running := some { c with phase := .drain k chunk } }
      else none
    | .drain k chunk =>
      let drained := s.write c.result (lo chunk) (hi chunk) (s.host (pick c.staged chunk))
      if k < n then some { drained with running := some { c with phase := nextTurn n k } }
      else some (drained.finish c)

/-- The device completes its next operation. -/
def complete : Option (TorchImageOps ρ) :=
  match s.issued[s.completed]? with
  | none => none
  | some (.compute rows) => some { s with device := rows, completed := s.completed + 1 }
  | some (.copy block lo hi) =>
    some { s.write block 0 (hi - lo) (fun x => s.device (lo + x)) with completed := s.completed + 1 }
  | some .record => some { s with completed := s.completed + 1 }

/-- The device is at its next operation, a copy. -/
def partly (junk : Nat → ρ) : Option (TorchImageOps ρ) :=
  match s.issued[s.completed]? with
  | some (.copy block lo hi) => some (s.write block 0 (hi - lo) junk)
  | _ => none

/-- A block in use: a staging buffer of the pool, or an array that was returned. -/
def Live (b : Nat) : Prop :=
  (∃ p key, s.staging = some p ∧ p.buffers.get? key = some b) ∨ ∃ r ∈ s.returned, r.1.block = b

/-- What the allocators may answer: blocks not in use, and no block twice. -/
structure Allocates (a b : Grant) (fresh : Nat) : Prop where
  first : ∀ x, a = .block x → ¬ s.Live x
  second : ∀ x, b = .block x → ¬ s.Live x ∧ a ≠ .block x
  result : ¬ s.Live fresh ∧ a ≠ .block fresh ∧ b ≠ .block fresh

end TorchImageOps

open TorchImageOps in
/-- The ops of one thread in use: calls one after another, and the device at any time. -/
def readback (ρ : Type) : Machine (TorchImageOps ρ) (ReadbackStep ρ) where
  init s := s.issued = [] ∧ s.completed = 0 ∧ s.returned = [] ∧ s.running = none ∧ s.eventCache = .empty ∧
    ∀ p ∈ s.staging, ∀ k k' b, p.buffers.get? k = some b → p.buffers.get? k' = some b → k = k'
  step s l t :=
    match l with
    | .call tensor name a b fresh => s.running = none ∧ s.Allocates a b fresh ∧ t = s.toHost tensor name a b fresh
    | .host => s.goOn = some t
    | .complete => s.complete = some t
    | .partly junk => s.partly junk = some t

end ShipInfer.Runtime
