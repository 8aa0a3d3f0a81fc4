import Mathlib.Data.List.Sort
import Mathlib.Data.String.Basic
import ShipInfer.Core.Request
import ShipInfer.Lib.Layout
import ShipInfer.Lib.Texts
import ShipInfer.Spill.Ingress

/-!
# What crosses a shared ring

`engine/spill/wire.py`: a request in one direction, a response in the other. A slot is a
head, one tensor head for each tensor, and the tensors' bytes. Tensors lie in the order of
their names, and a text lies in a field filled up with zero bytes. A slot is its bytes;
what encoding raises is told by its kind and the values its text names.
-/

namespace ShipInfer.Spill.Wire

inductive WireError
  | tooManyDims (name : String) (ndim : Nat)
  | doesNotFit (what text : String) (width : Nat)
  | slotTooSmall (id : Int) (needed held : Nat)
  /-- `struct.error`: a value out of its format's range, or a buffer too short. -/
  | format
  | noHead (held : Nat)
  | notAVersion (magic version : Nat)
  | unknownDtype (name : String) (code : Nat)
  | pastSlot (name : String) (stop held : Nat)
  /-- `frombuffer` and `reshape`: the bytes do not make up the shape. -/
  | notTheShape (name : String)
  | noPriority (level : Int)
  | noDevice (text : String)
  | remoteFailure (message : String) (code : Nat)
  deriving DecidableEq

def wireVersion : Nat := 1

def magicRequest : Nat := 0x52455131

def magicResponse : Nat := 0x52455331

def maxDims : Nat := 8

def statusOk : Nat := 0

structure RequestHead where
  magic : Nat
  version : Nat
  requestId : Int
  modelVersion : Int
  priority : Int
  tensors : Nat
  deadlineNs : Int
  receivedNs : Int
  queuedNs : Int
  frameId : Int
  capturedNs : Int
  capturedUnixNs : Int
  cameraId : List UInt8
  modelName : List UInt8
  traceId : List UInt8
  deriving DecidableEq

open Layout (natural unsigned signed raw pair record)

/-- `_REQUEST_HEAD` -/
def requestHead : Layout RequestHead :=
  record
    (pair (natural 4) <| pair (natural 4) <| pair (unsigned 8) <| pair (signed 8) <| pair (signed 4) <|
      pair (natural 4) <| pair (signed 8) <| pair (signed 8) <| pair (signed 8) <| pair (signed 8) <|
      pair (signed 8) <| pair (signed 8) <| pair (raw 64) <| pair (raw 64) (raw 64))
    (fun h => (h.magic, h.version, h.requestId, h.modelVersion, h.priority, h.tensors, h.deadlineNs, h.receivedNs,
      h.queuedNs, h.frameId, h.capturedNs, h.capturedUnixNs, h.cameraId, h.modelName, h.traceId))
    fun (magic, version, requestId, modelVersion, priority, tensors, deadlineNs, receivedNs, queuedNs, frameId,
        capturedNs, capturedUnixNs, cameraId, modelName, traceId) =>
      { magic, version, requestId, modelVersion, priority, tensors, deadlineNs, receivedNs, queuedNs, frameId,
        capturedNs, capturedUnixNs, cameraId, modelName, traceId }

structure ResponseHead where
  magic : Nat
  version : Nat
  requestId : Int
  modelVersion : Int
  tensors : Nat
  status : Nat
  receivedNs : Int
  queuedNs : Int
  batchedNs : Int
  computeStartNs : Int
  computeEndNs : Int
  completedNs : Int
  modelName : List UInt8
  executedOn : List UInt8
  message : List UInt8
  deriving DecidableEq

/-- `_RESPONSE_HEAD` -/
def responseHead : Layout ResponseHead :=
  record
    (pair (natural 4) <| pair (natural 4) <| pair (unsigned 8) <| pair (signed 8) <| pair (natural 4) <|
      pair (natural 4) <| pair (signed 8) <| pair (signed 8) <| pair (signed 8) <| pair (signed 8) <|
      pair (signed 8) <| pair (signed 8) <| pair (raw 64) <| pair (raw 16) (raw 192))
    (fun h => (h.magic, h.version, h.requestId, h.modelVersion, h.tensors, h.status, h.receivedNs, h.queuedNs,
      h.batchedNs, h.computeStartNs, h.computeEndNs, h.completedNs, h.modelName, h.executedOn, h.message))
    fun (magic, version, requestId, modelVersion, tensors, status, receivedNs, queuedNs, batchedNs, computeStartNs,
        computeEndNs, completedNs, modelName, executedOn, message) =>
      { magic, version, requestId, modelVersion, tensors, status, receivedNs, queuedNs, batchedNs, computeStartNs,
        computeEndNs, completedNs, modelName, executedOn, message }

theorem responseHead_width : responseHead.width = responseHeadSize := rfl

/-- What `_TENSOR_HEAD` packs. -/
structure TensorFields where
  name : List UInt8
  dtype : Nat
  ndim : Nat
  pad : Nat
  nbytes : Nat
  dims : List Nat
  deriving DecidableEq

/-- `_TENSOR_HEAD` -/
def tensorHead : Layout TensorFields :=
  record
    (pair (raw 64) <| pair (natural 1) <| pair (natural 1) <| pair (natural 2) <| pair (natural 8) <|
      Layout.repeated maxDims (natural 4))
    (fun h => (h.name, h.dtype, h.ndim, h.pad, h.nbytes, h.dims))
    fun (name, dtype, ndim, pad, nbytes, dims) => { name, dtype, ndim, pad, nbytes, dims }

/-- `_DTYPE_CODES`, by the order of the enumeration. -/
def dtypeCode : DataType → Nat
  | .bool => 0
  | .uint8 => 1
  | .int8 => 2
  | .int32 => 3
  | .int64 => 4
  | .fp16 => 5
  | .fp32 => 6
  | .fp64 => 7

/-- `_DTYPES_BY_CODE` -/
def dtypeOfCode : Nat → Option DataType
  | 0 => some .bool
  | 1 => some .uint8
  | 2 => some .int8
  | 3 => some .int32
  | 4 => some .int64
  | 5 => some .fp16
  | 6 => some .fp32
  | 7 => some .fp64
  | _ => none

@[simp] theorem dtypeOfCode_dtypeCode (d : DataType) : dtypeOfCode (dtypeCode d) = some d := by cases d <;> rfl

structure TensorHead where
  name : String
  dtype : DataType
  shape : List Nat
  nbytes : Nat
  deriving DecidableEq

/-- `_fixed` -/
def fixed (text : String) (width : Nat) (what : String) : Except WireError (List UInt8) :=
  if width ≤ (encode text).length then .error (.doesNotFit what text (width - 1)) else .ok (encode text)

/-- `_unfixed` -/
def unfixed (raw : List UInt8) : String := decode (stripZeros raw)

/-- What `struct` raises. -/
def orFormat {α : Type} : Option α → Except WireError α
  | none => .error .format
  | some a => .ok a

/-- `_host`: the bytes on the host. `ascontiguousarray` gives an array at least one axis. -/
def host (t : Tensor) : Tensor where
  dtype := t.dtype
  shape := if t.shape = [] then [1] else t.shape
  data := t.data
  sized := by
    rw [t.sized]
    split
    · rename_i h
      rw [h]
      rfl
    · rfl

/-- `_tensor_heads` -/
def tensorHeads (tensors : Dict String Tensor) : Except WireError (List (TensorHead × Tensor)) :=
  (tensors.entries.insertionSort fun p q => p.1 ≤ q.1).mapM fun p =>
    let array := host p.2
    if maxDims < array.shape.length then .error (.tooManyDims p.1 array.shape.length)
    else .ok ({ name := p.1, dtype := array.dtype, shape := array.shape, nbytes := array.data.length }, array)

/-- `_pack_tensor_head` -/
def packTensorHead (head : TensorHead) : Except WireError (List UInt8) := do
  let name ← fixed head.name maxName "tensor name"
  orFormat (tensorHead.pack
    { name, dtype := dtypeCode head.dtype, ndim := head.shape.length, pad := 0, nbytes := head.nbytes,
      dims := head.shape ++ List.replicate (maxDims - head.shape.length) 0 })

/-- `_unpack_tensor_head` -/
def unpackTensorHead (view : List UInt8) (offset : Nat) : Except WireError TensorHead := do
  let fields ← orFormat (tensorHead.read (view.drop offset))
  let name := unfixed fields.name
  match dtypeOfCode fields.dtype with
  | none => .error (.unknownDtype name fields.dtype)
  | some dtype => .ok { name, dtype, shape := fields.dims.take fields.ndim, nbytes := fields.nbytes }

/-- `view[offset : offset + len(bytes)] = bytes` -/
def writeAt (view : List UInt8) (offset : Nat) (bytes : List UInt8) : List UInt8 :=
  view.take offset ++ bytes ++ view.drop (offset + bytes.length)

/-- The first loop of `_write_tensors`. -/
def writeHeads : List (TensorHead × Tensor) → List UInt8 → Nat → Except WireError (List UInt8 × Nat)
  | [], view, offset => .ok (view, offset)
  | h :: heads, view, offset => do
    let bytes ← packTensorHead h.1
    writeHeads heads (writeAt view offset bytes) (offset + tensorHead.width)

/-- Its second. -/
def writeData : List (TensorHead × Tensor) → List UInt8 → Nat → List UInt8 × Nat
  | [], view, offset => (view, offset)
  | h :: heads, view, offset => writeData heads (writeAt view offset h.2.data) (offset + h.1.nbytes)

/-- `_write_tensors` -/
def writeTensors (view : List UInt8) (offset : Nat) (heads : List (TensorHead × Tensor)) :
    Except WireError (List UInt8 × Nat) := do
  let (view, offset) ← writeHeads heads view offset
  .ok (writeData heads view offset)

/-- The first loop of `_read_tensors`. -/
def readHeads (view : List UInt8) : Nat → Nat → Except WireError (List TensorHead × Nat)
  | 0, offset => .ok ([], offset)
  | count + 1, offset => do
    let head ← unpackTensorHead view offset
    let (heads, stop) ← readHeads view count (offset + tensorHead.width)
    .ok (head :: heads, stop)

/-- Whether `n` bytes make up an array of the shape. Axes that span nothing leave the others
out of the count of the bytes, but not out of what an array may span. -/
def MakesUp (dtype : DataType) (shape : List Nat) (n : Nat) : Prop :=
  n = elementCount shape * dtype.itemsize ∧ elementCount (shape.filter fun dim => decide (dim ≠ 0)) * dtype.itemsize < 2 ^ 63

instance (dtype : DataType) (shape : List Nat) (n : Nat) : Decidable (MakesUp dtype shape n) :=
  inferInstanceAs (Decidable (_ ∧ _))

/-- `frombuffer(..).reshape(..)` -/
def tensorOf (head : TensorHead) (bytes : List UInt8) : Except WireError Tensor :=
  if h : MakesUp head.dtype head.shape bytes.length then
    .ok { dtype := head.dtype, shape := head.shape, data := bytes, sized := h.1 }
  else .error (.notTheShape head.name)

/-- Its second: each tensor is set under its name. -/
def readData (view : List UInt8) : List TensorHead → Nat → Dict String Tensor → Except WireError (Dict String Tensor)
  | [], _, out => .ok out
  | head :: heads, offset, out =>
    if view.length < offset + head.nbytes then
      .error (.pastSlot head.name (offset + head.nbytes) view.length)
    else do
      let tensor ← tensorOf head ((view.drop offset).take head.nbytes)
      readData view heads (offset + head.nbytes) (out.set head.name tensor)

/-- `_read_tensors` -/
def readTensors (view : List UInt8) (offset count : Nat) : Except WireError (Dict String Tensor) := do
  let (heads, offset) ← readHeads view count offset
  readData view heads offset .empty

/-- The bytes that heads of `headSize` and the tensors take. -/
def needed (headSize : Nat) (heads : List (TensorHead × Tensor)) : Nat :=
  headSize + heads.length * tensorHead.width + (heads.map fun h => h.1.nbytes).sum

/-- `encode_request`: the slot it leaves, and how many of its bytes it used. -/
def encodeRequest (request : InferenceRequest) (view : List UInt8) : Except WireError (List UInt8 × Nat) := do
  let heads ← tensorHeads request.inputs
  if view.length < needed requestHead.width heads then
    .error (.slotTooSmall request.requestId (needed requestHead.width heads) view.length)
  else do
    let ctx := request.context
    let t := request.timings
    let cameraId ← fixed ctx.cameraId maxName "camera_id"
    let modelName ← fixed request.modelName maxName "model_name"
    let traceId ← fixed ctx.traceId maxName "trace_id"
    let head ← orFormat (requestHead.pack
      { magic := magicRequest
        version := wireVersion
        requestId := request.requestId
        modelVersion := request.modelVersion.getD (-1)
        priority := request.priority.level
        tensors := heads.length
        deadlineNs := request.deadlineNs
        receivedNs := t.receivedNs
        queuedNs := t.queuedNs
        frameId := ctx.frameId
        capturedNs := ctx.capturedNs
        capturedUnixNs := ctx.capturedUnixNs
        cameraId, modelName, traceId })
    writeTensors (writeAt view 0 head) requestHead.width heads

/-- `Priority` of its number. -/
def priorityOf : Int → Option Priority
  | 0 => some .trackingCritical
  | 1 => some .high
  | 2 => some .normal
  | 3 => some .background
  | _ => none

@[simp] theorem priorityOf_level (p : Priority) : priorityOf p.level = some p := by cases p <;> rfl

/-- `decode_request` -/
def decodeRequest (view : List UInt8) : Except WireError InferenceRequest :=
  if view.length < requestHead.width then .error (.noHead view.length)
  else do
    let f ← orFormat (requestHead.read view)
    if f.magic ≠ magicRequest ∨ f.version ≠ wireVersion then .error (.notAVersion f.magic f.version)
    else do
      let inputs ← readTensors view requestHead.width f.tensors
      match priorityOf f.priority with
      | none => .error (.noPriority f.priority)
      | some priority =>
        .ok
          { modelName := unfixed f.modelName
            inputs
            requestId := f.requestId
            modelVersion := if f.modelVersion < 0 then none else some f.modelVersion
            context :=
              { cameraId := unfixed f.cameraId
                frameId := f.frameId
                capturedNs := f.capturedNs
                capturedUnixNs := f.capturedUnixNs
                traceId := unfixed f.traceId }
            priority
            deadlineNs := f.deadlineNs
            timings := { receivedNs := f.receivedNs, queuedNs := f.queuedNs } }

/-- `str(device)` -/
def deviceText (device : Device) : String :=
  match device.kind with
  | .cpu => "cpu"
  | .cuda => String.ofList ("cuda:".toList ++ intText device.index)

/-- `Device.parse` -/
def parseDevice (text : String) : Except WireError Device :=
  let stripped := strip text.toList
  let kind := (stripped.takeWhile (· ≠ ':')).map Char.toLower
  let index := (stripped.dropWhile (· ≠ ':')).tail
  if kind = "cpu".toList then .ok {}
  else if kind = "cuda".toList then
    match if index = [] then some 0 else readInt index with
    | none => .error (.noDevice text)
    | some i => if i < 0 then .error (.noDevice text) else .ok { kind := .cuda, index := i }
  else .error (.noDevice text)

/-- `encode_response` -/
def encodeResponse (response : InferenceResponse) (view : List UInt8) : Except WireError (List UInt8 × Nat) := do
  let heads ← tensorHeads response.outputs
  if view.length < needed responseHead.width heads then
    .error (.slotTooSmall response.requestId (needed responseHead.width heads) view.length)
  else do
    let t := response.timings
    let modelName ← fixed response.modelName maxName "model_name"
    let executedOn ← fixed (deviceText response.executedOn) 16 "executed_on"
    let head ← orFormat (responseHead.pack
      { magic := magicResponse
        version := wireVersion
        requestId := response.requestId
        modelVersion := response.modelVersion
        tensors := heads.length
        status := statusOk
        receivedNs := t.receivedNs
        queuedNs := t.queuedNs
        batchedNs := t.batchedNs
        computeStartNs := t.computeStartNs
        computeEndNs := t.computeEndNs
        completedNs := t.completedNs
        modelName, executedOn
        message := [] })
    writeTensors (writeAt view 0 head) responseHead.width heads

/-- `decode_response`, for the request whose `context` the submitter kept. -/
def decodeResponse (view : List UInt8) (context : RequestContext) : Except WireError InferenceResponse :=
  if view.length < responseHead.width then .error (.noHead view.length)
  else do
    let f ← orFormat (responseHead.read view)
    if f.magic ≠ magicResponse ∨ f.version ≠ wireVersion then .error (.notAVersion f.magic f.version)
    else if f.status ≠ statusOk then
      let message := unfixed f.message
      .error (.remoteFailure (if message = "" then "the owner failed the request without a message" else message)
        f.status)
    else do
      let outputs ← readTensors view responseHead.width f.tensors
      let executedOn ← parseDevice (unfixed f.executedOn)
      .ok
        { requestId := f.requestId
          modelName := unfixed f.modelName
          modelVersion := f.modelVersion
          outputs
          context
          timings :=
            { receivedNs := f.receivedNs
              queuedNs := f.queuedNs
              batchedNs := f.batchedNs
              computeStartNs := f.computeStartNs
              computeEndNs := f.computeEndNs
              completedNs := f.completedNs }
          executedOn }

end ShipInfer.Spill.Wire
