import ShipInfer.Perception.Stages
import ShipInfer.Runners.Walk

/-!
# A crop element

`_PoolCropElement` of `topology/elements/pool.py` and its two elements: crop the
selected detections, ask the model in requests no larger than it takes, and scatter
the rows back. The image operations, the model and the fold of its outputs are a
parameter, and an error carries what its message names.
-/

namespace ShipInfer.Elements

open Runners (ChainItem MetaValue)
open Perception.Stages (Values StageError)

/-- Labels and boxes, row by row. -/
structure Detections (Box : Type) where
  labels : List String
  boxes : List Box
  parallel : boxes.length = labels.length
  deriving DecidableEq

/-- What the metadata holds beside scatter-backs; of a mapping, the entries under
detection rows. -/
inductive Filed (ρ Box ν : Type)
  | detections (d : Detections Box)
  | extent (hw : Nat × Nat)
  | mapping (rows : Dict Nat ρ)
  | value (v : ν)

/-- What a crop element raises. -/
inductive CropError
  | noDetections
  | otherFrame (actual declared : Nat × Nat)
  | noOutput (output : String) (got : List String)
  | notOneRowPerCrop (crops rows : Nat)
  | notConcatenable
  | notMapping (key : String)
  | covered (row : Nat)
  /-- What the image operations, the model or the fold raised. -/
  | raised (what : String)
  deriving DecidableEq

abbrev Item (Image ρ Box ν : Type) := ChainItem Image ρ (Filed ρ Box ν)

/-- What an element calls. -/
structure CropWorld (Image Crop Row Box : Type) where
  /-- `_frame_of`, with the frame's extent. -/
  frameOf : Option Image → Except CropError (Image × Nat × Nat)
  /-- What is cut out for each box. -/
  cropBatch : Image → List Box → Except CropError (Box → Crop)
  /-- The answer to a request, by its number. -/
  submit : Nat → List Crop → Except CropError (Dict String (Values Row))
  /-- The fold of a response, or the identity. -/
  reduced : Dict String (Values Row) → Except CropError (Dict String (Values Row))

structure CropElement where
  name : String
  metaKey : String
  output : String
  /-- `none`: every row. -/
  classes : Option (List String)
  maxRows : Nat
  positive : 0 < maxRows
  deriving DecidableEq

namespace CropElement

variable {Image Crop Row Box ν ρ : Type}

/-- `_selected` -/
def selected (e : CropElement) (d : Detections Box) : List Nat :=
  match e.classes with
  | none => List.range d.labels.length
  | some classes => (d.labels.zipIdx.filter fun p => classes.contains p.1).map Prod.snd

/-- `_refuse_a_frame_the_boxes_do_not_belong_to` -/
def refuseOtherFrame (item : Item Image ρ Box ν) (actual : Nat × Nat) : Except CropError Unit :=
  match item.metadata.get? "frame_hw" with
  | some (.other (.extent declared)) => if declared = actual then .ok () else .error (.otherFrame actual declared)
  | _ => .ok ()

/-- `_prepare`: the crops and the detection of each. -/
def prepare (e : CropElement) (w : CropWorld Image Crop Row Box) (item : Item Image ρ Box ν) :
    Except CropError (List Crop × List Nat) :=
  match item.metadata.get? "detections" with
  | some (.other (.detections d)) =>
    let rows := e.selected d
    if rows = [] then .ok ([], [])
    else do
      let (image, extent) ← w.frameOf item.payload
      refuseOtherFrame item extent
      let boxes := rows.filterMap (d.boxes[·]?)
      let cut ← w.cropBatch image boxes
      return (boxes.map cut, rows)
  | _ => .error .noDetections

/-- `range(0, total, limit)`, each with where its slice ends. -/
def requests (total limit : Nat) : List (Nat × Nat) :=
  if total ≤ limit then [(0, total)]
  else (List.range ((total + limit - 1) / limit)).map fun k => (k * limit, min (k * limit + limit) total)

/-- `_reduced` of `_submit`, of one slice. -/
def ask (w : CropWorld Image Crop Row Box) (crops : List Crop) (request : Nat) (range : Nat × Nat) :
    Except CropError (Dict String (Values Row)) := do
  w.reduced (← w.submit request ((crops.drop range.1).take (range.2 - range.1)))

/-- `_rows_of` -/
def rowsOf (e : CropElement) (response : Dict String (Values Row)) : Except CropError (Values Row) :=
  match response.get? e.output with
  | some rows => .ok rows
  | none => .error (.noOutput e.output (Perception.sorted response.keys))

/-- The answers to the requests, one array each. -/
def answers (e : CropElement) (w : CropWorld Image Crop Row Box) (crops : List Crop) : Except CropError (List (Values Row)) := do
  let chunks ← (requests crops.length e.maxRows).zipIdx.mapM fun p => ask w crops p.2 p.1
  chunks.mapM e.rowsOf

/-- `np.concatenate` -/
def concatenate (pieces : List (Values Row)) : Except CropError (Values Row) :=
  match Values.concatenate pieces with
  | .ok rows => .ok rows
  | .error _ => .error .notConcatenable

/-- `_submit_crops`, and the declared output of the response. -/
def submitCrops (e : CropElement) (w : CropWorld Image Crop Row Box) (crops : List Crop) : Except CropError (Values Row) := do
  match ← e.answers w crops with
  | [rows] => return rows
  | pieces => concatenate pieces

/-- `_scatter` -/
def scatter (e : CropElement) (item : Item Image ρ Box ν) (covered : Dict Nat ρ) : Except CropError (Item Image ρ Box ν) :=
  let merge (existing : Dict Nat ρ) (declare : Dict Nat ρ → MetaValue ρ (Filed ρ Box ν)) : Except CropError (Item Image ρ Box ν) :=
    if covered.entries = [] then .ok item
    else
      match covered.keys.find? existing.contains with
      | some row => .error (.covered row)
      | none => .ok { item with metadata := item.metadata.set e.metaKey (declare (existing.update covered.entries)) }
  match item.metadata.get? e.metaKey with
  | none => .ok { item with metadata := item.metadata.set e.metaKey (.rowIndexed covered) }
  | some (.rowIndexed existing) => merge existing .rowIndexed
  | some (.other (.mapping existing)) => merge existing fun rows => .other (.mapping rows)
  | some (.other _) => .error (.notMapping e.metaKey)

/-- `_finish` -/
def finish (e : CropElement) (file : Row → ρ) (item : Item Image ρ Box ν) (vectors : Values Row) (rows : List Nat) :
    Except CropError (Item Image ρ Box ν) :=
  match vectors with
  | .rows (_ :: _) data =>
    if data.length ≠ rows.length then .error (.notOneRowPerCrop rows.length data.length)
    else e.scatter item (Dict.empty.update (rows.zip (data.map file)))
  | vectors => .error (.notOneRowPerCrop rows.length vectors.count)

/-- `_do_process`; what is filed of a row stands for the object filed. -/
def doProcess (e : CropElement) (w : CropWorld Image Crop Row Box) (file : Row → ρ) (item : Item Image ρ Box ν) :
    Except CropError (Item Image ρ Box ν) := do
  let (crops, rows) ← e.prepare w item
  if rows = [] then e.scatter item .empty
  else e.finish file item (← e.submitCrops w crops) rows

end CropElement

end ShipInfer.Elements
