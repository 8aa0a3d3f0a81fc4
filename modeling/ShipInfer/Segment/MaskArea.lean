import Mathlib
import ShipInfer.Lib.Fold

/-!
# Mask areas

The fold of a segmentation engine's two outputs into one area for each crop:
`InstanceMaskArea` of `topology/elements/masks.py`, on numpy arrays with the crops as their first
axis, and `mask_area` of `pipeline/graph/mask_area.cpp`, on flattened rows with declared dims.
-/

namespace ShipInfer.Segment

/-- A numpy array, its elements in row-major order. -/
structure NdArray (K : Type) where
  shape : List Nat
  data : List K
  size : data.length = shape.prod

/-- `OutputTensor` -/
structure OutputTensor (K : Type) where
  name : String
  data : List K
  rowElems : Nat
  dims : List Int

structure InferenceResponse (K : Type) where
  outputs : List (OutputTensor K)
  rows : Nat

/-- An output of the engine: of each crop, an array of the declared dims. -/
structure EngineOutput (K : Type) (rows : Nat) where
  name : String
  dims : List Nat
  data : List K
  size : data.length = rows * dims.prod

/-- What the engine answers for its crops. -/
structure Segmentation (K : Type) where
  rows : Nat
  outputs : List (EngineOutput K rows)
  distinct : (outputs.map EngineOutput.name).Nodup

namespace Segmentation

variable {K : Type} (r : Segmentation K)

def output (name : String) : Option (EngineOutput K r.rows) := r.outputs.find? fun o => o.name == name

/-- As the Python plane holds it. -/
def batched : List (String × NdArray K) :=
  r.outputs.map fun o => (o.name, ⟨r.rows :: o.dims, o.data, by rw [o.size, List.prod_cons]⟩)

/-- As the C++ plane holds it. -/
def flattened : InferenceResponse K :=
  ⟨r.outputs.map fun o => ⟨o.name, o.data, o.dims.prod, o.dims.map Nat.cast⟩, r.rows⟩

end Segmentation

/-- `_PREFIX` and `kPrefix`: the columns before the mask coefficients. -/
def prefixColumns : Nat := 6

/-- `_SCORE` and `kScore` -/
def scoreColumn : Nat := 4

inductive Refusal
  | missing (name : String) (got : List String)
  | rowsShape (name : String) (shape : List Int)
  | protosShape (name : String) (shape : List Int)
  | notStatic (name : String) (dims : List Int)
  | coefficients (emitted planes : Nat)
  | batches (rows protos : Nat)
  /-- numpy's `argmax` over no element. -/
  | emptyArgmax
  /-- numpy's `reshape`, an extent to be inferred beside a zero. -/
  | noExtent
  /-- Python's float division. -/
  | zeroDivision
  deriving DecidableEq

variable {K : Type} [Field K] [LinearOrder K]

/-- The settings of a fold as a chain or a plan states them; a name is empty and a cut absent
where it states none. -/
structure FoldLines (K : Type) [Field K] [LinearOrder K] where
  detections : String := ""
  prototypes : String := ""
  score : Option K := none
  mask : Option K := none
  mask_mem : ∀ m ∈ mask, 0 < m ∧ m < 1

/-- `InstanceMaskArea`, and `MaskAreaSpec` likewise. -/
structure MaskAreaSpec (K : Type) where
  cropHeight : Int
  cropWidth : Int
  detections : String := "output0"
  prototypes : String := "output1"
  name : String := "mask_area_px"
  scoreThreshold : K
  maskThreshold : K

/-- `fold_of`, for a segment slot. -/
def foldOf (lines : FoldLines K) (cropHeight cropWidth : Int) : MaskAreaSpec K :=
  let fold : MaskAreaSpec K := { cropHeight, cropWidth, scoreThreshold := 1 / 4, maskThreshold := 1 / 2 }
  let fold := if lines.detections = "" then fold else { fold with detections := lines.detections }
  let fold := if lines.prototypes = "" then fold else { fold with prototypes := lines.prototypes }
  let fold := match lines.score with
    | none => fold
    | some score => { fold with scoreThreshold := score }
  match lines.mask with
  | none => fold
  | some mask => { fold with maskThreshold := mask }

/-- The fold a `PoolSegment` opens with. -/
def openedFold (lines : FoldLines K) (cropHeight cropWidth : Int) : MaskAreaSpec K where
  cropHeight := cropHeight
  cropWidth := cropWidth
  detections := if lines.detections = "" then "output0" else lines.detections
  prototypes := if lines.prototypes = "" then "output1" else lines.prototypes
  scoreThreshold := lines.score.getD (1 / 4)
  maskThreshold := lines.mask.getD (1 / 2)

/-! ## Python -/

/-- `np.argmax` of `n` values: where the first of the greatest stands. -/
def argmax (n : Nat) (value : Nat → K) : Option Nat :=
  (List.range n).find? fun i => (List.range n).all fun j => decide (value j ≤ value i)

/-- The extent `reshape` infers for `-1`, beside the others. -/
def inferredExtent (size known : Nat) : Option Nat :=
  if known = 0 then none else if size % known = 0 then some (size / known) else none

/-- `InstanceMaskArea._require` -/
def requireArray (outputs : List (String × NdArray K)) (name : String) : Except Refusal (NdArray K) :=
  match outputs.find? fun o => o.1 == name with
  | none => .error (.missing name (outputs.map Prod.fst))
  | some o => .ok o.2

/-- An element of an array of two axes of the given extents below the first. -/
def NdArray.entry (a : NdArray K) (second third n i j : Nat) : K := a.data.getD ((n * second + i) * third + j) 0

/-- The area of one crop, its chosen row the first of the highest score. -/
def cropAreaPy (log : K → K) (m : MaskAreaSpec K) (rows protos : NdArray K) (candidates stride channels cells n : Nat) :
    K :=
  let best := (argmax candidates fun i => rows.entry candidates stride n i scoreColumn).getD 0
  let chosen := fun j => rows.entry candidates stride n best j
  let logit := fun k => ((List.range channels).map fun i =>
    chosen (prefixColumns + i) * protos.entry channels cells n i k).sum
  let cut := log (m.maskThreshold / (1 - m.maskThreshold))
  let cellPx : K := (m.cropHeight * m.cropWidth : Int) / cells
  if m.scoreThreshold ≤ chosen scoreColumn then
    ((List.range cells).countP fun k => decide (cut ≤ logit k) : Nat) * cellPx
  else 0

/-- `InstanceMaskArea.__call__` on its two arrays. -/
def foldArrays (log : K → K) (m : MaskAreaSpec K) (rows protos : NdArray K) : Except Refusal (List K) :=
  match rows.shape with
  | [batch, candidates, stride] =>
    if stride ≤ prefixColumns then .error (.rowsShape m.detections (rows.shape.map Nat.cast))
    else
      match protos.shape with
      | [count, channels, h, w] =>
        if stride - prefixColumns ≠ channels then .error (.coefficients (stride - prefixColumns) channels)
        else if batch ≠ count then .error (.batches batch count)
        else if candidates = 0 then .error .emptyArgmax
        else
          match inferredExtent (count * channels * h * w) (count * channels) with
          | none => .error .noExtent
          | some cells =>
            if cells = 0 then .error .zeroDivision
            else .ok ((List.range count).map (cropAreaPy log m rows protos candidates stride channels cells))
      | shape => .error (.protosShape m.prototypes (shape.map Nat.cast))
  | shape => .error (.rowsShape m.detections (shape.map Nat.cast))

/-- `InstanceMaskArea.__call__`: one area for each crop, with the logarithm of the platform. -/
def maskAreaPy (log : K → K) (m : MaskAreaSpec K) (outputs : List (String × NdArray K)) : Except Refusal (List K) := do
  let rows ← requireArray outputs m.detections
  let protos ← requireArray outputs m.prototypes
  foldArrays log m rows protos

/-! ## C++ -/

/-- `require` -/
def requireTensor (response : InferenceResponse K) (name : String) : Except Refusal (OutputTensor K) :=
  match response.outputs.find? fun o => o.name == name with
  | none => .error (.missing name (response.outputs.map OutputTensor.name))
  | some o => .ok o

/-- `require_static` -/
def requireStatic (dims : List Int) (name : String) : Except Refusal Unit :=
  if dims.all fun dim => decide (0 < dim) then .ok () else .error (.notStatic name dims)

/-- An element of an output's row. -/
def OutputTensor.element (o : OutputTensor K) (row i : Nat) : K := o.data.getD (row * o.rowElems + i) 0

/-- The scan for the strongest row. -/
def strongest (n : Nat) (score : Nat → K) : Nat :=
  (List.range' 1 (n - 1)).foldl (fun best c => if score best < score c then c else best) 0

/-- The area of one crop. -/
def cropAreaCpp (log : K → K) (spec : MaskAreaSpec K) (rows protos : OutputTensor K)
    (candidates stride coefficients cells crop : Nat) : K :=
  let cut := log (spec.maskThreshold / (1 - spec.maskThreshold))
  let cellPx : K := spec.cropHeight * spec.cropWidth / cells
  let best := strongest candidates fun c => rows.element crop (c * stride + scoreColumn)
  let chosen := fun j => rows.element crop (best * stride + j)
  if chosen scoreColumn < spec.scoreThreshold then 0
  else
    let logit := fun cell => (List.range coefficients).foldl
      (fun logit i => logit + chosen (prefixColumns + i) * protos.element crop (i * cells + cell)) 0
    let inside := (List.range cells).foldl (fun inside cell => if cut ≤ logit cell then inside + 1 else inside) 0
    ((inside : Nat) : K) * cellPx

/-- `mask_area` on its two outputs, of which nothing is dynamic or empty. -/
def foldTensors (log : K → K) (spec : MaskAreaSpec K) (count : Nat) (rows protos : OutputTensor K) :
    Except Refusal (OutputTensor K) :=
  match rows.dims with
  | [candidates, stride] =>
    if stride ≤ prefixColumns then .error (.rowsShape spec.detections rows.dims)
    else
      match protos.dims with
      | [channels, h, w] =>
        let coefficients := stride.toNat - prefixColumns
        let cells := h.toNat * w.toNat
        if coefficients ≠ channels.toNat then .error (.coefficients coefficients channels.toNat)
        else .ok
          { name := spec.name
            data := (List.range count).map
              (cropAreaCpp log spec rows protos candidates.toNat stride.toNat coefficients cells)
            rowElems := 1
            dims := [] }
      | dims => .error (.protosShape spec.prototypes dims)
  | dims => .error (.rowsShape spec.detections dims)

/-- `mask_area` -/
def maskAreaCpp (log : K → K) (spec : MaskAreaSpec K) (response : InferenceResponse K) :
    Except Refusal (OutputTensor K) := do
  let rows ← requireTensor response spec.detections
  let protos ← requireTensor response spec.prototypes
  requireStatic rows.dims spec.detections
  requireStatic protos.dims spec.prototypes
  foldTensors log spec response.rows rows protos

end ShipInfer.Segment
