import ShipInfer.Lib.Argsort
import ShipInfer.Lib.Dict
import Mathlib.Algebra.Order.Floor.Ring
import Mathlib.Data.Rat.Floor

/-!
# The detector's decode, on both planes

`decode_detections` of `topology/elements/detections.py` and the loop of
`DetectStage::do_run` in `pipeline/graph/stages.cpp`, from one frame's raw rows to
detections in the frame's pixels. Coordinates are exact; scores are of any linear
order, with `⊤` for NaN, which compares with nothing and sorts last. A detection
keeps the number of the row it came from.
-/

namespace ShipInfer.Detect

structure Box where
  x1 : ℚ
  y1 : ℚ
  x2 : ℚ
  y2 : ℚ
  deriving DecidableEq

def Box.map (fx fy : ℚ → ℚ) (b : Box) : Box := ⟨fx b.x1, fy b.y1, fx b.x2, fy b.y2⟩

/-- A row of the detector's output, in letterboxed pixels. -/
structure RawRow (σ : Type) where
  box : Box
  score : WithTop σ
  cls : ℚ

structure Row (σ : Type) extends RawRow σ where
  row : Nat

def numbered {σ : Type} (raw : List (RawRow σ)) : List (Row σ) := raw.zipIdx.map fun p => { toRawRow := p.1, row := p.2 }

/-- How the frame was letterboxed. -/
structure Letterbox where
  scale : ℚ
  padX : ℚ
  padY : ℚ
  height : Nat
  width : Nat
  scale_pos : 0 < scale

structure DecodeParams (σ : Type) where
  classLabels : Dict Int String := .empty
  scoreThreshold : σ
  maxDetections : Nat := 100

structure Detection (σ : Type) where
  row : Nat
  box : Box
  score : WithTop σ
  classId : Int
  deriving DecidableEq

structure Detections (σ : Type) where
  found : List (Detection σ) := []
  labels : List String := []
  discarded : Nat := 0

def unknownLabel : String := "unknown"

/-- A float to an integer: towards zero. -/
def toInt (q : ℚ) : Int := if 0 ≤ q then ⌊q⌋ else ⌈q⌉

def Row.detection {σ : Type} (r : Row σ) (box : Box) : Detection σ where
  row := r.row
  box := box
  score := r.score
  classId := toInt r.cls

variable {σ : Type} [LinearOrder σ]

/-- `scores >= threshold`, false of NaN. -/
def AtLeast (threshold : σ) (r : Row σ) : Prop := r.score ≠ ⊤ ∧ ↑threshold ≤ r.score

/-- `score < threshold`, false of NaN. -/
def Below (threshold : σ) (r : Row σ) : Prop := r.score < ↑threshold

instance (threshold : σ) (r : Row σ) : Decidable (AtLeast threshold r) := inferInstanceAs (Decidable (_ ∧ _))

instance (threshold : σ) (r : Row σ) : Decidable (Below threshold r) := inferInstanceAs (Decidable (_ < _))

/-! ## The Python plane -/

/-- The rows the model says it filled. -/
def truncate (count : Option Int) (rows : List (Row σ)) : List (Row σ) :=
  match count with
  | none => rows
  | some n => rows.take (max 0 (min n rows.length)).toNat

/-- The rows kept, those of the highest scores where there are more than the cap. -/
def keep (params : DecodeParams σ) (rows : List (Row σ)) : List (Row σ) :=
  let kept := rows.filter fun r => AtLeast params.scoreThreshold r
  if params.maxDetections < kept.length then
    ascending Row.row ((descending (fun r => r.score) kept).take params.maxDetections)
  else kept

def unletterbox (geometry : Letterbox) (b : Box) : Box :=
  let inv := if geometry.scale = 0 then 1 else 1 / geometry.scale
  b.map (fun x => (x - geometry.padX) * inv) (fun y => (y - geometry.padY) * inv)

def clip (bound : Nat) (x : ℚ) : ℚ := min (max x 0) bound

def clamp (geometry : Letterbox) (b : Box) : Box := b.map (clip geometry.width) (clip geometry.height)

def decodeDetections (params : DecodeParams σ) (geometry : Letterbox) (count : Option Int) (raw : List (RawRow σ)) :
    Detections σ :=
  let filled := truncate count (numbered raw)
  if filled.length = 0 then {}
  else
    let kept := keep params filled
    if kept.length = 0 then { discarded := filled.length }
    else
      let order := descending (fun r => r.score) kept
      let found := order.map fun r => r.detection (clamp geometry (unletterbox geometry r.box))
      { found := found
        labels := found.map fun d => (params.classLabels.get? d.classId).getD unknownLabel
        discarded := filled.length - order.length }

/-! ## The C++ plane -/

structure DetectConfig (σ : Type) where
  scoreThreshold : σ
  maxObjects : Nat

/-- `detect_config`: the plan carries what the element decodes with. -/
def detectConfig (params : DecodeParams σ) : DetectConfig σ where
  scoreThreshold := params.scoreThreshold
  maxObjects := params.maxDetections

def toFrame (geometry : Letterbox) (b : Box) : Box :=
  b.map (fun x => (x - geometry.padX) / geometry.scale) (fun y => (y - geometry.padY) / geometry.scale)

/-- One turn of the loop for each candidate, while there is room. -/
def decodeLoop (config : DetectConfig σ) (geometry : Letterbox) :
    List (Row σ) → List (Detection σ) → List (Detection σ)
  | [], detections => detections
  | r :: rows, detections =>
    if detections.length < config.maxObjects then
      if Below config.scoreThreshold r then decodeLoop config geometry rows detections
      else
        decodeLoop config geometry rows (detections ++ [r.detection (toFrame geometry r.box)])
    else detections

def detectStage (config : DetectConfig σ) (geometry : Letterbox) (raw : List (RawRow σ)) : List (Detection σ) :=
  decodeLoop config geometry (numbered raw) []

end ShipInfer.Detect
