import ShipInfer.Batching.Stacking

/-!
# What a TensorRT backend advertises and returns

`output_specs`, `keep_on_device`, `set_fold` and `execute` of `TensorRTBackend`, with the
mask fold of `backends/tensorrt/fold.py` and the graph cache that replays a batch size,
and `Model.attach_fold`, which offers a fold to every instance and tells the batcher.
-/

namespace ShipInfer.Backends.Fold

open ShipInfer.Batching

/-! ## The engine -/

/-- One engine tensor; the shape has the batch axis and -1 for a dynamic extent. -/
structure EngineIO where
  name : String
  dtype : DataType
  shape : List Int
  isInput : Bool
  named : name ≠ ""
  extents : ∀ dim ∈ shape, 0 ≤ dim ∨ dim = dynamic

/-- `to_spec` -/
def EngineIO.toSpec (t : EngineIO) (stripBatch : Bool) : TensorSpec where
  name := t.name
  dtype := t.dtype
  shape := if stripBatch then t.shape.tail else t.shape
  named := t.named
  extents := by
    intro dim hdim
    cases stripBatch
    · exact t.extents dim hdim
    · exact t.extents dim (List.mem_of_mem_tail hdim)

/-- A loaded engine: its tensors have names of their own, it has an output, and only the
batch axis may be dynamic, or `_concrete_shape` had refused it. -/
structure LoadedEngine where
  io : List EngineIO
  distinct : (io.map EngineIO.name).Nodup
  answers : ∃ t ∈ io, t.isInput = false
  concrete : ∀ t ∈ io, ∀ dim ∈ t.shape.tail, 0 ≤ dim

def LoadedEngine.outputs (e : LoadedEngine) : List EngineIO := e.io.filter fun t => !t.isInput

def LoadedEngine.outputNames (e : LoadedEngine) : List String := e.outputs.map EngineIO.name

/-- What the config says of the model. -/
structure ModelConfig where
  outputSpecs : List TensorSpec
  maxBatchSize : Nat

def ModelConfig.strip (c : ModelConfig) : Bool := decide (0 < c.maxBatchSize)

def ModelConfig.effectiveMaxBatchSize (c : ModelConfig) : Nat := if c.maxBatchSize = 0 then 1 else c.maxBatchSize

/-- `_concrete_shape`: the shape of a binding. -/
def concreteShape (shape : List Int) (batch : Nat) : List Nat := batch :: shape.tail.map Int.toNat

/-! ## The fold -/

structure MaskAreaFold where
  cropHw : Nat × Nat
  detections : String
  prototypes : String
  name : String
  scoreThreshold : Rat
  maskThreshold : Rat
  deriving DecidableEq

/-- `_PREFIX`: what comes before the coefficients in a row. -/
def maskPrefix : Nat := 6

inductive ExecuteError
  | notInitialised
  /-- `no binding named ...` -/
  | noBinding (name : String)
  /-- An output without axes has no `shape[0]`. -/
  | noAxis
  /-- `tensor spec needs a name` -/
  | unnamed
  | notRows (detections prototypes : List Nat)
  | truncatedBasis (coefficients : Int) (planes : Nat)
  | notOneType (rows planes : DataType)
  deriving DecidableEq

/-- What calling the fold checks of its two outputs. -/
def MaskAreaFold.check (rows planes : DataType × List Nat) : Except ExecuteError Unit :=
  match rows.2, planes.2 with
  | [_, r, columns], _ :: channels :: spatial =>
    if (columns : Int) - maskPrefix ≠ channels then .error (.truncatedBasis ((columns : Int) - maskPrefix) channels)
    else if r = 0 ∨ channels = 0 ∨ elementCount spatial = 0 then .error (.notRows rows.2 planes.2)
    else if rows.1 ≠ planes.1 then .error (.notOneType rows.1 planes.1)
    else .ok ()
  | _, _ => .error (.notRows rows.2 planes.2)

/-! ## The graph cache -/

structure GraphCache where
  /-- Asked for, on a device that can. -/
  enabled : Bool
  batchSizes : List Nat
  captured : List Nat := []
  failures : Nat := 0
  maxFailures : Nat := 3

def GraphCache.isEnabled (g : GraphCache) : Bool := g.enabled && decide (g.failures < g.maxFailures)

/-! ## One backend -/

structure Backend where
  /-- `_loaded is not None` -/
  loaded : Bool
  fold : Option MaskAreaFold := none
  /-- `_kept_on_device` -/
  kept : List String := []
  graphs : Option GraphCache := none

section
variable (c : ModelConfig) (e : LoadedEngine)

/-- The spec of the fold's own output. -/
def areaSpec (f : MaskAreaFold) : Except ExecuteError TensorSpec :=
  match e.outputs.head? with
  | some ⟨_, _, batch :: _, _, _, extents⟩ =>
    if h : f.name = "" then .error .unnamed
    else .ok
      { name := f.name
        dtype := .fp32
        shape := if c.strip then [1] else [batch, 1]
        named := h
        extents := by
          intro dim hdim
          by_cases hs : c.strip = true
          · rw [if_pos hs] at hdim
            rw [List.mem_singleton.mp hdim]
            exact .inl (by decide)
          · rw [if_neg hs] at hdim
            rcases List.mem_pair.mp hdim with rfl | rfl
            · exact extents _ List.mem_cons_self
            · exact .inl (by decide) }
  | _ => .error .noAxis

namespace Backend

/-- The outputs not kept, as specs. -/
def advertised (b : Backend) : List TensorSpec :=
  (e.outputs.map fun t => t.toSpec c.strip).filter fun spec => decide (spec.name ∉ b.kept)

/-- `output_specs` -/
def outputSpecs (b : Backend) : Except ExecuteError (List TensorSpec) :=
  if !b.loaded then .ok c.outputSpecs
  else
    match b.fold with
    | none => .ok (b.advertised c e)
    | some f => do
      let area ← areaSpec c e f
      .ok ((b.advertised c e).filter (fun spec => decide (spec.name ≠ f.prototypes)) ++ [area])

inductive ConfigurationError
  | notLoaded
  | noSuchOutput (name : String) (known : List String)
  | lastOutput (name : String)
  | foldOutputs (missing known : List String)
  | otherFold (name : String)
  /-- Not the type of a refusal: what reading the specs raised. -/
  | specs (error : ExecuteError)
  deriving DecidableEq

/-- `keep_on_device` -/
def keepOnDevice (b : Backend) (output : String) : Except ConfigurationError Backend :=
  if !b.loaded then .error .notLoaded
  else if output ∉ e.outputNames then .error (.noSuchOutput output e.outputNames)
  else
    let kept := if output ∈ b.kept then b.kept else output :: b.kept
    if b.fold = none ∧ (∀ name ∈ e.outputNames, name ∈ kept) then .error (.lastOutput output)
    else .ok { b with kept := kept }

/-- `set_fold` -/
def setFold (b : Backend) (fold : Option MaskAreaFold) : Except ConfigurationError Backend :=
  match fold with
  | none => .ok { b with fold := none }
  | some f =>
    if !b.loaded then .error .notLoaded
    else
      let missing := [f.detections, f.prototypes].filter fun name => decide (name ∉ e.outputNames)
      if missing ≠ [] then .error (.foldOutputs missing (e.outputNames.insertionSort (· ≤ ·)))
      else .ok { b with fold := some f }

end Backend

/-! ## Executing -/

/-- What the device holds: the bytes of a binding, and those the fold computes. -/
structure DeviceMemory where
  bytes : String → Nat → UInt8
  areas : Nat → UInt8

def tensorOf (dtype : DataType) (shape : List Nat) (bytes : Nat → UInt8) : Tensor where
  dtype := dtype
  shape := shape
  data := List.ofFn fun j : Fin (elementCount shape * dtype.itemsize) => bytes j
  sized := List.length_ofFn

def binding (name : String) : Except ExecuteError EngineIO :=
  match e.io.find? fun t => decide (t.name = name) with
  | some t => .ok t
  | none => .error (.noBinding name)

/-- `fetch_output` -/
def fetchOutput (memory : DeviceMemory) (name : String) (size : Nat) : Except ExecuteError Tensor := do
  let t ← binding e name
  .ok (tensorOf t.dtype (min size c.effectiveMaxBatchSize :: t.shape.tail.map Int.toNat) (memory.bytes name))

/-- One round of the loop over the specs. -/
def fetchOne (memory : DeviceMemory) (b : Backend) (size : Nat) (outputs : Dict String Tensor) (spec : TensorSpec) :
    Except ExecuteError (Dict String Tensor) :=
  if b.fold.map MaskAreaFold.name = some spec.name then .ok outputs
  else if spec.name ∈ b.kept then .ok outputs
  else do
    let t ← fetchOutput c e memory spec.name size
    .ok (outputs.set spec.name t)

/-- The fold, on the stream after the network. -/
def foldOutput (memory : DeviceMemory) (f : MaskAreaFold) (size : Nat) (outputs : Dict String Tensor) :
    Except ExecuteError (Dict String Tensor) := do
  let rows ← binding e f.detections
  let planes ← binding e f.prototypes
  MaskAreaFold.check (rows.dtype, concreteShape rows.shape c.effectiveMaxBatchSize)
    (planes.dtype, concreteShape planes.shape c.effectiveMaxBatchSize)
  .ok (outputs.set f.name (tensorOf .fp32 [size, 1] memory.areas))

/-- `_capture_io`: the binding of every advertised output is looked up. -/
def captureIo (b : Backend) : Except ExecuteError Unit := do
  let specs ← b.outputSpecs c e
  specs.forM fun spec => do
    let _ ← binding e spec.name
    .ok ()

/-- What recording a size does to the cache. -/
def GraphCache.record (g : GraphCache) (size : Nat) (captures : Bool) : GraphCache :=
  if captures then { g with captured := size :: g.captured } else { g with failures := g.failures + 1 }

/-- `_maybe_replay`: replaying and launching leave the cache as it is; `captures` says
whether recording works. -/
def maybeReplay (b : Backend) (size : Nat) (captures : Bool) : Except ExecuteError Backend :=
  match b.graphs with
  | none => .ok b
  | some g =>
    if g.isEnabled = true ∧ size ∉ g.captured ∧ size ∈ g.batchSizes then do
      captureIo c e b
      .ok { b with graphs := some (g.record size captures) }
    else .ok b

/-- What comes home once the network is on the stream. -/
def fetchOutputs (memory : DeviceMemory) (b : Backend) (size : Nat) : Except ExecuteError (Dict String Tensor) := do
  let specs ← b.outputSpecs c e
  let outputs ← specs.foldlM (fetchOne c e memory b size) .empty
  match b.fold with
  | none => .ok outputs
  | some f => foldOutput c e memory f size outputs

/-- `execute`: the backend after it, and the outputs. -/
def execute (memory : DeviceMemory) (b : Backend) (size : Nat) (captures : Bool) :
    Backend × Except ExecuteError (Dict String Tensor) :=
  if !b.loaded then (b, .error .notInitialised)
  else
    match maybeReplay c e b size captures with
    | .error err => (b, .error err)
    | .ok b' => (b', fetchOutputs c e memory b' size)

end

/-! ## One model -/

structure Model where
  config : ModelConfig
  engine : LoadedEngine
  /-- `_instances`, of one engine all. -/
  instances : List Backend
  fold : Option MaskAreaFold := none
  batcher : StackingBatcher

namespace Model

/-- Every instance is offered the fold, up to one that raises. -/
def offer (e : LoadedEngine) (fold : Option MaskAreaFold) :
    List Backend → List Backend × Option Backend.ConfigurationError
  | [] => ([], none)
  | b :: bs =>
    match b.setFold e fold with
    | .error err => (b :: bs, some err)
    | .ok b' => (b' :: (offer e fold bs).1, (offer e fold bs).2)

/-- The batcher follows the first instance. -/
def follow (m : Model) : Model × Option Backend.ConfigurationError :=
  match m.instances with
  | [] => (m, none)
  | first :: _ =>
    match first.outputSpecs m.config m.engine with
    | .error err => (m, some (.specs err))
    | .ok specs => ({ m with batcher := { m.batcher with outputSpecs := specs } }, none)

/-- Another fold is held than the one that is asked for. -/
def holdsOther (m : Model) (fold : Option MaskAreaFold) : Bool :=
  fold.isSome && m.fold.isSome && decide (m.fold ≠ fold)

/-- `attach_fold`: the model after it, and what it raised. -/
def attachFold (m : Model) (fold : Option MaskAreaFold) : Model × Option Backend.ConfigurationError :=
  if m.holdsOther fold then (m, some (.otherFold ((m.fold.map MaskAreaFold.name).getD "")))
  else
    let r := offer m.engine fold m.instances
    let m' := { m with fold := fold, instances := r.1 }
    match r.2 with
    | some err => (m', some err)
    | none => m'.follow

/-- `keep_on_device` of the `i`-th instance. -/
def keep (m : Model) (i : Nat) (output : String) : Model × Option Backend.ConfigurationError :=
  match m.instances[i]? with
  | none => (m, none)
  | some b =>
    match b.keepOnDevice m.engine output with
    | .error err => (m, some err)
    | .ok b' => ({ m with instances := m.instances.set i b' }, none)

/-- A batch on the `i`-th instance. -/
def run (m : Model) (memory : DeviceMemory) (i size : Nat) (captures : Bool) : Model :=
  match m.instances[i]? with
  | none => m
  | some b => { m with instances := m.instances.set i (execute m.config m.engine memory b size captures).1 }

end Model

inductive Call
  | attach (fold : Option MaskAreaFold)
  | keep (i : Nat) (output : String)
  | execute (memory : DeviceMemory) (i size : Nat) (captures : Bool)

/-- A call on the model, and what it raised. -/
def step (m : Model) : Call → Model × Option Backend.ConfigurationError
  | .attach fold => m.attachFold fold
  | .keep i output => m.keep i output
  | .execute memory i size captures => (m.run memory i size captures, none)

end ShipInfer.Backends.Fold
