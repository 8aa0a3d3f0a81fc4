import ShipInfer.Core.Request

/-!
# Batching by stacking

`Model._admit` of `engine/model.py` and `StackingBatcher` of
`scheduling/batching/stacking.py`: what a model lets in, how the requests of a
batch are stacked into one input map with a span of rows each, and how the
outputs are cut up again.
-/

namespace ShipInfer.Batching

structure StackingBatcher where
  inputSpecs : List TensorSpec
  outputSpecs : List TensorSpec
  maxBatchSize : Nat

structure AssembledBatch where
  items : List WorkItem
  inputs : Dict String Tensor
  /-- The rows `(start, stop)` each item contributed. -/
  spans : List (Nat × Nat)
  deriving DecidableEq

inductive BatchError
  | emptyBatch
  | tooManyRows (rows maxBatchSize : Nat)
  | partialOptional (name : String) (present requests : Nat)
  | stack (error : TensorError)
  | invalid (error : ValidateError)
  | notBatchMajor (name : String) (rows size : Nat)
  | slice (error : TensorError)
  deriving DecidableEq

/-! ## Admission -/

/-- What `_admit` reads of a model. `cached` looks the inputs up in the response
cache; it finds nothing when the cache is off. -/
structure Model where
  name : String
  version : Int
  started : Bool
  inputSpecs : List TensorSpec
  outputSpecs : List TensorSpec
  maxBatchSize : Nat
  cached : Dict String Tensor → Option (Dict String Tensor)

inductive AdmitError
  | notStarted (model : String)
  | validation (model : String) (error : ValidateError)
  deriving DecidableEq

/-- An admitted request: its item, and the response when the cache had it. -/
structure Admitted where
  item : WorkItem
  completed : Option InferenceResponse
  deriving DecidableEq

namespace Model

/-- `max_batch_size or 1` -/
def effectiveMaxBatchSize (m : Model) : Nat := if m.maxBatchSize = 0 then 1 else m.maxBatchSize

def batcher (m : Model) : StackingBatcher := ⟨m.inputSpecs, m.outputSpecs, m.effectiveMaxBatchSize⟩

def received (request : InferenceRequest) (now : Int) : InferenceRequest :=
  if request.timings.receivedNs = 0 then { request with timings := { request.timings with receivedNs := now } }
  else request

def responseFrom (m : Model) (request : InferenceRequest) (outputs : Dict String Tensor) (now : Int) :
    InferenceResponse :=
  { requestId := request.requestId
    modelName := m.name
    modelVersion := m.version
    outputs := outputs
    context := request.context
    timings := { request.timings with completedNs := now } }

def admitRequest (m : Model) (request : InferenceRequest) (now : Int) : Except AdmitError Admitted :=
  if !m.started then .error (.notStarted m.name)
  else
    match validateAgainst request.inputs m.inputSpecs .input with
    | .error e => .error (.validation m.name e)
    | .ok () =>
      let request := received request now
      match m.cached request.inputs with
      | none => .ok { item := { request := request, enqueuedNs := now }, completed := none }
      | some outputs =>
        let response := m.responseFrom request outputs now
        .ok
          { item := { request := { request with timings := response.timings }, enqueuedNs := now }
            completed := some response }

/-- An item a queue of the model hands out: admitted, not answered by the cache,
and stamped. -/
def Queued (m : Model) (item : WorkItem) : Prop :=
  ∃ request now admitted, m.admitRequest request now = .ok admitted ∧ admitted.completed = none ∧ item = admitted.item.stamped

theorem Queued.valid {m : Model} {item : WorkItem} (h : m.Queued item) :
    validateAgainst item.request.inputs m.inputSpecs .input = .ok () := by
  obtain ⟨request, now, admitted, hadmit, hfree, rfl⟩ := h
  have hinputs : (received request now).inputs = request.inputs := by
    unfold received
    split <;> rfl
  unfold admitRequest at hadmit
  split at hadmit
  · cases hadmit
  · split at hadmit
    · cases hadmit
    · rename_i hvalid
      dsimp only at hadmit
      split at hadmit
      · cases hadmit
        show validateAgainst (received request now).inputs _ _ = _
        rw [hinputs, hvalid]
      · cases hadmit
        cases hfree

end Model

/-! ## Packing -/

/-- The spans of the items, the first from `offset` on. -/
def spans (offset : Nat) : List WorkItem → List (Nat × Nat)
  | [] => []
  | item :: items => (offset, offset + item.rows) :: spans (offset + item.rows) items

def batchRows (items : List WorkItem) : Nat := items.foldr (fun item n => item.rows + n) 0

namespace AssembledBatch

def size (batch : AssembledBatch) : Nat :=
  match batch.spans.getLast? with
  | none => 0
  | some span => span.2

def requestCount (batch : AssembledBatch) : Nat := batch.items.length

end AssembledBatch

namespace StackingBatcher

def inputNames (b : StackingBatcher) : List String := b.inputSpecs.map TensorSpec.name

def contributions (items : List WorkItem) (name : String) : List Tensor :=
  items.filterMap fun item => item.request.inputs.get? name

/-- One round of the loop over the input names. -/
def stackInput (items : List WorkItem) (inputs : Dict String Tensor) (name : String) :
    Except BatchError (Dict String Tensor) :=
  let ts := contributions items name
  if ts = [] then .ok inputs
  else if ts.length ≠ items.length then .error (.partialOptional name ts.length items.length)
  else
    match stackTensors ts with
    | .error e => .error (.stack e)
    | .ok t => .ok (inputs.set name t)

def packInputs (b : StackingBatcher) : List WorkItem → Except BatchError (Dict String Tensor)
  | [item] => .ok item.request.inputs
  | items => b.inputNames.foldlM (stackInput items) .empty

def assemble (b : StackingBatcher) (items : List WorkItem) : Except BatchError AssembledBatch :=
  if items = [] then .error .emptyBatch
  else if b.maxBatchSize < batchRows items then .error (.tooManyRows (batchRows items) b.maxBatchSize)
  else
    match b.packInputs items with
    | .error e => .error e
    | .ok inputs =>
      match validateAgainst inputs b.inputSpecs .input with
      | .error e => .error (.invalid e)
      | .ok () => .ok { items := items, inputs := inputs, spans := spans 0 items }

/-! ## Unpacking -/

def checkRows (size : Nat) (p : String × Tensor) : Except BatchError Unit :=
  match p.2.shape with
  | [] => .ok ()
  | n :: _ => if n ≠ size then .error (.notBatchMajor p.1 n size) else .ok ()

def slicePart (span : Nat × Nat) (t : Tensor) : Except BatchError Tensor :=
  match t.sliceBatch span.1 span.2 with
  | .error e => .error (.slice e)
  | .ok part => .ok part

/-- The outputs cut to one span. -/
def sliceOutputs (outputs : Dict String Tensor) (span : Nat × Nat) : Except BatchError (Dict String Tensor) :=
  outputs.mapValuesM (slicePart span)

def scatter (b : StackingBatcher) (batch : AssembledBatch) (outputs : Dict String Tensor) :
    Except BatchError (List (Dict String Tensor)) :=
  match validateAgainst outputs b.outputSpecs .output with
  | .error e => .error (.invalid e)
  | .ok () =>
    match outputs.entries.forM (checkRows batch.size) with
    | .error e => .error e
    | .ok () =>
      if batch.requestCount = 1 then .ok [outputs]
      else batch.spans.mapM (sliceOutputs outputs)

end StackingBatcher

end ShipInfer.Batching
