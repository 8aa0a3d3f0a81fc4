import Mathlib.Data.List.Sort
import Mathlib.Data.Rat.Defs
import ShipInfer.Perception.Graph

/-!
# The stages of the perception graph

`_do_run` of `pipeline/graph/detect.py`, `crop.py`, `objects.py` and `tracking.py`,
on the frame of `state.py`. A stage changes the frame as it goes: what it raises
half way leaves the changes made so far. The image operations, the models and the
tracking library are a parameter.
-/

namespace ShipInfer.Perception.Stages

/-- What a stage raises. -/
inductive StageError
  | noBatch (name : String) (has : List String)
  | noOutput (stage model output : String) (got : List String)
  | misaligned (batch : String) (rows objects : Nat)
  | notConcatenable
  | indexError
  /-- What an image operation, a model or the tracker raised. -/
  | raised (what : String)
  deriving DecidableEq

/-- An array, by the rows under its first axis; `scalar` has no axis. -/
inductive Values (Row : Type)
  | scalar (value : Row)
  | rows (rowShape : List Nat) (data : List Row)
  deriving DecidableEq

namespace Values

variable {Row : Type}

/-- `shape[0]`, or 0 without one. -/
def count : Values Row → Nat
  | scalar _ => 0
  | rows _ data => data.length

def slice (start stop : Nat) : Values Row → Except StageError (Values Row)
  | scalar _ => .error .indexError
  | rows shape data => .ok (rows shape ((data.drop start).take (stop - start)))

/-- `array[0]` -/
def first : Values Row → Except StageError Row
  | rows _ (row :: _) => .ok row
  | _ => .error .indexError

/-- `np.concatenate(pieces, axis=0)` -/
def concatenate : List (Values Row) → Except StageError (Values Row)
  | [] => .error .notConcatenable
  | [rows shape data] => .ok (rows shape data)
  | rows shape data :: pieces => do
    match ← concatenate pieces with
    | rows shape' data' => if shape = shape' then return rows shape (data ++ data') else throw .notConcatenable
    | scalar _ => throw .notConcatenable
  | scalar _ :: _ => .error .notConcatenable

end Values

structure Detection (Box : Type) where
  label : String
  box : Box
  deriving DecidableEq

/-- Rows, each of one detection of the frame. -/
structure ObjectBatch (Row Box : Type) where
  name : String
  className : String
  objectIndices : List Nat
  data : Values Row
  boxes : List Box := []
  aligned : data.count = objectIndices.length
  deriving DecidableEq

namespace ObjectBatch

variable {Row Box : Type}

/-- The constructor and the check of `__post_init__`. -/
def create (name className : String) (objectIndices : List Nat) (data : Values Row) (boxes : List Box) :
    Except StageError (ObjectBatch Row Box) :=
  if h : data.count = objectIndices.length then
    .ok { name := name, className := className, objectIndices := objectIndices, data := data, boxes := boxes, aligned := h }
  else .error (.misaligned name data.count objectIndices.length)

def empty (name className : String) (rowShape : List Nat) : ObjectBatch Row Box :=
  { name := name, className := className, objectIndices := [], data := .rows rowShape [], aligned := rfl }

def count (b : ObjectBatch Row Box) : Nat := b.objectIndices.length

theorem create_ok {name className : String} {indices : List Nat} {data : Values Row} {boxes : List Box}
    {b : ObjectBatch Row Box} (h : create name className indices data boxes = .ok b) :
    b.name = name ∧ b.objectIndices = indices ∧ b.data = data := by
  unfold create at h
  split at h
  · cases h; exact ⟨rfl, rfl, rfl⟩
  · cases h

end ObjectBatch

/-- What the letterbox reported of itself. -/
structure Letterbox where
  scale : ℚ := 1
  pad : ℚ × ℚ := (0, 0)
  extents : Nat × Nat := (0, 0)
  deriving DecidableEq

/-- `FrameState`; `none` is the released image. -/
structure State (Row Box Image : Type) where
  image : Option Image
  detections : List (Detection Box) := []
  detectionsReady : Bool := false
  letterbox : Letterbox := {}
  batches : Dict String (ObjectBatch Row Box) := .empty

namespace State

variable {Row Box Image : Type}

def attach (s : State Row Box Image) (b : ObjectBatch Row Box) : State Row Box Image :=
  { s with batches := s.batches.set b.name b }

def setDetections (s : State Row Box Image) (detections : List (Detection Box)) : State Row Box Image :=
  { s with detections := detections, detectionsReady := true }

def batch (s : State Row Box Image) (name : String) : Except StageError (ObjectBatch Row Box) :=
  match s.batches.get? name with
  | some b => .ok b
  | none => .error (.noBatch name (sorted s.batches.keys))

/-- `name in state.available()` -/
def available (s : State Row Box Image) (name : String) : Bool :=
  s.batches.contains name || (s.image.isSome && name == frameInput) || (s.detectionsReady && name == detectionsName)

/-- `detections.boxes_of(class_name)` -/
def boxesOf (s : State Row Box Image) (className : String) : List Box × List Nat :=
  let selected := s.detections.zipIdx.filter fun p => p.1.label == className
  (selected.map fun p => p.1.box, selected.map Prod.snd)

end State

structure Track where
  trackId : Int
  state : String
  deriving DecidableEq

/-- What the stages call: image operations, models, tracker. -/
structure World (Row Box Image : Type) where
  letterboxBatch : Option Image → Nat × Nat → Except StageError (Letterbox × Values Row)
  cropBatch : Option Image → List Box → Nat × Nat → Except StageError (Values Row)
  /-- The answer of a model to one request of a stage, by the request's number. -/
  infer : String → Nat → Values Row → Except StageError (Dict String (Values Row))
  /-- `max_batch_size`, where the model declares one. -/
  rowLimit : String → Option Nat
  readCount : Values Row → Except StageError Int
  decodeDetections : Row → Letterbox → Option Int → Except StageError (List (Detection Box))
  updateTracker : State Row Box Image → Except StageError (List Track)
  /-- The published tracks, each with the detection it was matched with. -/
  associate : List Track → State Row Box Image → Except StageError (List (Track × Nat))
  idRow : Int → Row
  stateRow : String → Row

/-- What a stage leaves behind, and the rows it produced or what it raised. -/
abbrev Result (Row Box Image : Type) := State Row Box Image × Except StageError Nat

variable {Row Box Image : Type}

/-! ## Detection -/

structure DetectStage where
  name : String
  model : String
  dstSize : Nat × Nat
  boxesOutput : String
  countOutput : Option String
  deriving DecidableEq

/-- The `count` the detector reported, if it reports one. -/
def DetectStage.reported (st : DetectStage) (w : World Row Box Image) (outputs : Dict String (Values Row)) :
    Except StageError (Option Int) :=
  match st.countOutput.bind outputs.get? with
  | none => .ok none
  | some values => (w.readCount values).map some

/-- The model's answer, decoded. -/
def DetectStage.answer (st : DetectStage) (w : World Row Box Image) (applied : Letterbox) (tensor : Values Row) :
    Except StageError (List (Detection Box)) := do
  let outputs ← w.infer st.model 0 tensor
  match outputs.get? st.boxesOutput with
  | none => throw (.noOutput st.name st.model st.boxesOutput (sorted outputs.keys))
  | some rows =>
    let count ← st.reported w outputs
    w.decodeDetections (← rows.first) applied count

def DetectStage.doRun (st : DetectStage) (w : World Row Box Image) (s : State Row Box Image) : Result Row Box Image :=
  match w.letterboxBatch s.image st.dstSize with
  | .error e => (s, .error e)
  | .ok (applied, tensor) =>
    let s := { s with letterbox := applied }
    match st.answer w applied tensor with
    | .error e => (s, .error e)
    | .ok detections => (s.setDetections detections, .ok detections.length)

/-! ## Crops -/

structure CropSpec where
  name : String
  className : String
  size : Nat × Nat
  positive : 1 ≤ size.1 ∧ 1 ≤ size.2
  deriving DecidableEq

def CropSpec.rowShape (spec : CropSpec) : List Nat := [3, spec.size.1, spec.size.2]

structure CropStage where
  name : String
  crops : List CropSpec
  declared : crops ≠ []
  distinct : (crops.map CropSpec.name).Nodup
  deriving DecidableEq

/-- The loop over the crop sets. -/
def CropStage.loop (w : World Row Box Image) : List CropSpec → Nat → State Row Box Image → Result Row Box Image
  | [], total, s => (s, .ok total)
  | spec :: specs, total, s =>
    let (boxes, indices) := s.boxesOf spec.className
    if indices = [] then loop w specs total (s.attach (.empty spec.name spec.className spec.rowShape))
    else
      match w.cropBatch s.image boxes spec.size with
      | .error e => (s, .error e)
      | .ok tensor =>
        match ObjectBatch.create spec.name spec.className indices tensor boxes with
        | .error e => (s, .error e)
        | .ok b => loop w specs (total + indices.length) (s.attach b)

def CropStage.doRun (st : CropStage) (w : World Row Box Image) (s : State Row Box Image) : Result Row Box Image :=
  CropStage.loop w st.crops 0 s

/-! ## A model over the objects of a frame -/

/-- `_chunks`: row ranges no larger than the limit. -/
def chunkRanges (count : Nat) (limit : Option Nat) : List (Nat × Nat) :=
  if count = 0 then [(0, 0)]
  else
    match limit with
    | none => [(0, count)]
    | some limit =>
      if limit = 0 ∨ count ≤ limit then [(0, count)]
      else (List.range ((count + limit - 1) / limit)).map fun k => (k * limit, min (k * limit + limit) count)

structure ObjectStage (Row : Type) where
  name : String
  model : String
  source : String
  /-- Output name to the batch name it is stored under. -/
  outputs : Dict String String
  combine : Option (Dict String (Values Row) → Except StageError (Dict String (Values Row)))
  forwards : outputs.entries ≠ []

/-- `_quantities` -/
def ObjectStage.quantities (st : ObjectStage Row) (outputs : Dict String (Values Row)) :
    Except StageError (Dict String (Values Row)) :=
  match st.combine with
  | none => .ok (outputs.filter fun p => st.outputs.contains p.1)
  | some combine => combine outputs

/-- The answer to one chunk, one array for each output. -/
def ObjectStage.ask (st : ObjectStage Row) (w : World Row Box Image) (b : ObjectBatch Row Box) (request : Nat)
    (range : Nat × Nat) : Except StageError (List (Values Row)) := do
  let rows ← b.data.slice range.1 range.2
  let arrays ← st.quantities (← w.infer st.model request rows)
  st.outputs.keys.mapM fun output =>
    match arrays.get? output with
    | none => .error (.noOutput st.name st.model output (sorted arrays.keys))
    | some array => .ok array

/-- The pieces of every chunk, chunk by chunk. -/
def ObjectStage.collect (st : ObjectStage Row) (w : World Row Box Image) (b : ObjectBatch Row Box) :
    Except StageError (List (List (Values Row))) :=
  (chunkRanges b.count (w.rowLimit st.model)).zipIdx.mapM fun p => st.ask w b p.2 p.1

/-- The pieces of one output, as one array. -/
def joined (pieces : List (Values Row)) : Except StageError (Values Row) :=
  match pieces with
  | [piece] => .ok piece
  | pieces => Values.concatenate pieces

/-- The batch of one output, from its pieces. -/
def ObjectStage.produce (b : ObjectBatch Row Box) (batchName : String) (pieces : List (Values Row)) :
    Except StageError (ObjectBatch Row Box) := do
  ObjectBatch.create batchName b.className b.objectIndices (← joined pieces) []

/-- The loop over the outputs, each with its place among an answer's arrays. -/
def ObjectStage.attachAll (b : ObjectBatch Row Box) (collected : List (List (Values Row))) :
    List (String × Nat) → State Row Box Image → Result Row Box Image
  | [], s => (s, .ok b.count)
  | (batchName, place) :: rest, s =>
    match ObjectStage.produce b batchName (collected.filterMap (·[place]?)) with
    | .error e => (s, .error e)
    | .ok batch => attachAll b collected rest (s.attach batch)

def ObjectStage.doRun (st : ObjectStage Row) (w : World Row Box Image) (s : State Row Box Image) :
    Result Row Box Image :=
  match s.batch st.source with
  | .error e => (s, .error e)
  | .ok b =>
    match st.collect w b with
    | .error e => (s, .error e)
    | .ok collected => ObjectStage.attachAll b collected st.outputs.values.zipIdx s

/-! ## Tracking -/

def trackIds : String := "track_id"

def trackStates : String := "track_state"

def mixedClass : String := "any"

structure TrackStage where
  name : String
  deriving DecidableEq

/-- One value a row; an array of no rows has no second axis. -/
def column : List Row → Values Row
  | [] => .rows [] []
  | row :: rest => .rows [1] (row :: rest)

/-- `_attribute`: the detections a published track was matched with, in the frame's
order, with the track's id and its state. -/
def TrackStage.attribute (w : World Row Box Image) (s : State Row Box Image) (tracks : List Track) :
    Except StageError (List Nat × Values Row × Values Row) :=
  if tracks = [] ∨ s.detections = [] then .ok ([], .rows [1] [], .rows [1] [])
  else do
    let found := (← w.associate tracks s).mergeSort fun p q => decide (p.2 ≤ q.2)
    return (found.map Prod.snd, column (found.map fun p => w.idRow p.1.trackId),
      column (found.map fun p => w.stateRow p.1.state))

def TrackStage.doRun (w : World Row Box Image) (s : State Row Box Image) : Result Row Box Image :=
  match w.updateTracker s with
  | .error e => (s, .error e)
  | .ok tracks =>
    match TrackStage.attribute w s tracks with
    | .error e => (s, .error e)
    | .ok (indices, ids, states) =>
      match ObjectBatch.create trackIds mixedClass indices ids [] with
      | .error e => (s, .error e)
      | .ok ids =>
        let s := s.attach ids
        match ObjectBatch.create trackStates mixedClass indices states [] with
        | .error e => (s, .error e)
        | .ok states => (s.attach states, .ok indices.length)

/-! ## Any stage -/

inductive AnyStage (Row : Type)
  | detect (st : DetectStage)
  | crop (st : CropStage)
  | object (st : ObjectStage Row)
  | track (st : TrackStage)

def AnyStage.doRun (st : AnyStage Row) (w : World Row Box Image) (s : State Row Box Image) : Result Row Box Image :=
  match st with
  | .detect st => st.doRun w s
  | .crop st => st.doRun w s
  | .object st => st.doRun w s
  | .track _ => TrackStage.doRun w s

/-- `PipelineStage.run`: what it raises is a status. -/
def AnyStage.run (st : AnyStage Row) (w : World Row Box Image) (s : State Row Box Image) :
    StageStatus × State Row Box Image :=
  let r := st.doRun w s
  match r.2 with
  | .ok _ => (.ran, r.1)
  | .error _ => (.failed, r.1)

end ShipInfer.Perception.Stages
