import Mathlib.Data.Rat.Defs
import ShipInfer.Perception.Graph

/-!
# The perception graph of the C++ plane

The frame of `pipeline/graph/state.h`, the stages of `stages.cpp`, and `Dag` of
`dag.h` over the `Stage` of `stage.h`. A map of names is a `Dict`. What the device,
the models and the associator answer is a parameter; a message is left out of an
error.
-/

namespace ShipInfer.Perception.Cpp

/-- What a stage throws. -/
inductive Thrown
  | config
  | backend
  | logic
  /-- Of the device, of a model, of the associator. -/
  | raised (what : String)
  deriving DecidableEq

structure Detection (Box : Type) where
  box : Box
  classId : Int
  index : Nat := 0
  deriving DecidableEq

/-- `DevicePayload`: rows going into a model. -/
structure DevicePayload (Crop Box : Type) where
  name : String
  className : String
  data : List Crop := []
  rowElems : Nat
  objectIndices : List Nat := []
  boxes : List Box := []
  deriving DecidableEq

/-- `ObjectBatch`: a model's output, row by row. -/
structure ObjectBatch (Row : Type) where
  name : String
  objectIndices : List Nat := []
  data : List Row := []
  width : Nat := 0
  deriving DecidableEq

/-- `append`: one chunk's rows, for the objects from `start` on. -/
def ObjectBatch.append {Row : Type} (b : ObjectBatch Row) (chunk : List Row) (chunkWidth : Nat) (indices : List Nat)
    (start : Nat) : Except Thrown (ObjectBatch Row) :=
  if chunk = [] then .ok b
  else
    let width := if b.width = 0 then chunkWidth else b.width
    if chunkWidth ≠ width then .error .backend
    else if indices.length < start + chunk.length then .error .logic
    else
      .ok { b with
        width := width
        data := b.data ++ chunk
        objectIndices := b.objectIndices ++ (indices.drop start).take chunk.length }

structure LetterboxMap where
  scale : ℚ := 1
  padX : Int := 0
  padY : Int := 0
  deriving DecidableEq

structure FrameState (Crop Row Box : Type) where
  hasPixels : Bool
  detected : Bool := false
  detections : List (Detection Box) := []
  letterbox : LetterboxMap := {}
  payloads : Dict String (DevicePayload Crop Box) := .empty
  batches : Dict String (ObjectBatch Row) := .empty

variable {Crop Row Box Response Future : Type}

namespace FrameState

def setDetections (s : FrameState Crop Row Box) (detections : List (Detection Box)) : FrameState Crop Row Box :=
  { s with detections := detections.zipIdx.map fun p => { p.1 with index := p.2 } }

def attach (s : FrameState Crop Row Box) (b : ObjectBatch Row) : FrameState Crop Row Box :=
  { s with batches := s.batches.set b.name b }

def attachPayload (s : FrameState Crop Row Box) (p : DevicePayload Crop Box) : FrameState Crop Row Box :=
  { s with payloads := s.payloads.set p.name p }

def available (s : FrameState Crop Row Box) : List String :=
  (if s.hasPixels then [frameInput] else []) ++ (if s.detected then [detectionsName] else []) ++ s.payloads.keys ++
    s.batches.keys

def nonEmpty (s : FrameState Crop Row Box) : List String :=
  (if s.hasPixels then [frameInput] else []) ++
    (if s.detected && !s.detections.isEmpty then [detectionsName] else []) ++
    (s.payloads.filter fun p => !p.2.data.isEmpty).keys ++ (s.batches.filter fun p => !p.2.objectIndices.isEmpty).keys

end FrameState

/-- What the stages call. -/
structure World (Crop Row Box Response Future : Type) where
  letterboxFrame : FrameState Crop Row Box → Except Thrown LetterboxMap
  inferDetector : String → LetterboxMap → Except Thrown Response
  /-- The check of the response's rows, and the decode loop. -/
  decode : LetterboxMap → Response → Except Thrown (List (Detection Box))
  /-- The scratch buffer, the upload and the kernel: what is cut out for each box. -/
  cropFrame : String → List Box → Except Thrown (Box → Crop)
  maxBatch : String → Int
  submit : String → Nat → List Crop → Except Thrown Future
  await : Future → Except Thrown Response
  responseRows : Response → Nat
  /-- The associator's ids; `none` is the refusal it counts. -/
  ids : String → List (Detection Box) → Except Thrown (Option (List Int))
  idRow : Int → Row

abbrev Result (Crop Row Box : Type) := FrameState Crop Row Box × Except Thrown Nat

/-! ## The stages -/

structure DetectStage where
  name : String
  model : String
  deriving DecidableEq

def DetectStage.doRun (st : DetectStage) (w : World Crop Row Box Response Future) (s : FrameState Crop Row Box) :
    Result Crop Row Box :=
  match w.letterboxFrame s with
  | .error e => (s, .error e)
  | .ok map =>
    let s := { s with letterbox := map }
    match (do w.decode map (← w.inferDetector st.model map) : Except Thrown (List (Detection Box))) with
    | .error e => (s, .error e)
    | .ok detections => ({ s.setDetections detections with detected := true }, .ok detections.length)

def kAnyClass : Int := -1

structure CropSpec where
  name : String
  className : String
  classId : Int := kAnyClass
  height : Nat := 256
  width : Nat := 128
  deriving DecidableEq

def CropSpec.selects (spec : CropSpec) (det : Detection Box) : Bool :=
  decide (spec.classId = kAnyClass) || decide (det.classId = spec.classId)

structure CropStage where
  name : String
  crops : List CropSpec
  declared : crops ≠ []
  deriving DecidableEq

/-- The loop over the crop sets. -/
def CropStage.loop (w : World Crop Row Box Response Future) : List CropSpec → Nat → FrameState Crop Row Box →
    Result Crop Row Box
  | [], total, s => (s, .ok total)
  | spec :: specs, total, s =>
    let found := s.detections.filter spec.selects
    let payload : DevicePayload Crop Box :=
      { name := spec.name, className := spec.className, rowElems := 3 * spec.height * spec.width }
    if found = [] then loop w specs total (s.attachPayload payload)
    else
      match w.cropFrame spec.name (found.map Detection.box) with
      | .error e => (s, .error e)
      | .ok cut =>
        loop w specs (total + found.length) (s.attachPayload { payload with
          data := found.map fun det => cut det.box, objectIndices := found.map Detection.index, boxes := found.map Detection.box })

def CropStage.doRun (st : CropStage) (w : World Crop Row Box Response Future)
    (s : FrameState Crop Row Box) : Result Crop Row Box :=
  CropStage.loop w st.crops 0 s

/-- One output's rows, for the crops of one request. -/
structure OutputTensor (Row : Type) where
  data : List Row
  rowElems : Nat

structure ObjectStage (Row Response : Type) where
  name : String
  model : String
  source : String
  output : String
  /-- The fold, or the identity on the first output. -/
  combine : Response → Except Thrown (OutputTensor Row)

namespace ObjectStage

def limit (st : ObjectStage Row Response) (w : World Crop Row Box Response Future) : Nat :=
  (max 1 (w.maxBatch st.model)).toNat

/-- `for (start = 0; start < rows; start += limit)` -/
def starts (rows limit : Nat) : List Nat := (List.range ((rows + limit - 1) / limit)).map (· * limit)

/-- `do_begin`: every chunk is submitted, none is awaited. -/
def doBegin (st : ObjectStage Row Response) (w : World Crop Row Box Response Future)
    (payload : Option (DevicePayload Crop Box)) : Except Thrown (List (Nat × Future)) :=
  match payload with
  | none => .error .config
  | some p => (starts p.data.length (st.limit w)).mapM fun start =>
      (w.submit st.model start ((p.data.drop start).take (min (st.limit w) (p.data.length - start)))).map (start, ·)

/-- One chunk's answer, appended. -/
def receive (st : ObjectStage Row Response) (w : World Crop Row Box Response Future) (p : DevicePayload Crop Box)
    (out : ObjectBatch Row) (chunk : Nat × Future) : Except Thrown (ObjectBatch Row) := do
  let count := min (st.limit w) (p.data.length - chunk.1)
  let response ← w.await chunk.2
  if w.responseRows response ≠ count then throw .backend
  let rows ← st.combine response
  if rows.data.length ≠ count then throw .backend
  out.append rows.data rows.rowElems p.objectIndices chunk.1

/-- `do_finish`, up to the attach. -/
def doFinish (st : ObjectStage Row Response) (w : World Crop Row Box Response Future)
    (payload : Option (DevicePayload Crop Box)) (chunks : List (Nat × Future)) :
    Except Thrown (ObjectBatch Row × Nat) :=
  match payload with
  | none => .error .logic
  | some p => (chunks.foldlM (st.receive w p) { name := st.output }).map fun out => (out, p.data.length)

def doRun (st : ObjectStage Row Response) (w : World Crop Row Box Response Future) (s : FrameState Crop Row Box) :
    Result Crop Row Box :=
  match (do st.doFinish w (s.payloads.get? st.source) (← st.doBegin w (s.payloads.get? st.source)) :
      Except Thrown (ObjectBatch Row × Nat)) with
  | .error e => (s, .error e)
  | .ok (out, rows) => (s.attach out, .ok rows)

end ObjectStage

structure TrackStage where
  name : String
  output : String
  classId : Int
  deriving DecidableEq

def TrackStage.selected (st : TrackStage) (s : FrameState Crop Row Box) : List (Detection Box) :=
  if st.classId = kAnyClass then s.detections else s.detections.filter fun det => decide (det.classId = st.classId)

/-- The confirmed ids, each on its detection; a refused frame has none. -/
def TrackStage.doRun (st : TrackStage) (w : World Crop Row Box Response Future) (s : FrameState Crop Row Box) :
    Result Crop Row Box :=
  match w.ids st.name (st.selected s) with
  | .error e => (s, .error e)
  | .ok answer =>
    let found := ((answer.getD []).zip (st.selected s)).filter fun p => decide (0 ≤ p.1)
    (s.attach { name := st.output, objectIndices := found.map fun p => p.2.index, data := found.map fun p => w.idRow p.1,
                width := 1 }, .ok found.length)

inductive AnyStage (Row Response : Type)
  | detect (st : DetectStage)
  | crop (st : CropStage)
  | object (st : ObjectStage Row Response)
  | track (st : TrackStage)

def AnyStage.doRun (st : AnyStage Row Response) (w : World Crop Row Box Response Future) (s : FrameState Crop Row Box) :
    Result Crop Row Box :=
  match st with
  | .detect st => st.doRun w s
  | .crop st => st.doRun w s
  | .object st => st.doRun w s
  | .track st => st.doRun w s

/-- `Stage::run`: what it throws is a status. -/
def AnyStage.run (st : AnyStage Row Response) (w : World Crop Row Box Response Future) (s : FrameState Crop Row Box) :
    StageStatus × FrameState Crop Row Box :=
  let r := st.doRun w s
  match r.2 with
  | .ok _ => (.ran, r.1)
  | .error _ => (.failed, r.1)

end ShipInfer.Perception.Cpp
