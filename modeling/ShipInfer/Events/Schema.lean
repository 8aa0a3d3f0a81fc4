import ShipInfer.Lib.Dict
import ShipInfer.Lib.Json

/-!
# The perception event

`core/events/schema.py`: one frame's result, and the line of JSON the Python plane
writes for it. A finite number is a value of `ρ`, and how it is spelled a parameter.
-/

namespace ShipInfer.Events

def MESSAGE_TYPE : String := "Det2MOT"

def SCHEMA_VERSION : Int := 5

/-- One object, over the strings and the numbers of a plane. -/
structure ObjectRecord (σ ρ : Type) where
  detId : σ
  className : σ
  score : ρ
  bbox : ρ × ρ × ρ × ρ
  embedding : List ρ := []
  shipId : Option Int := none
  similarity : Option ρ := none
  maskAreaPx : Option ρ := none
  trackId : Option Int := none
  trackState : Option σ := none
  globalId : Option Int := none

structure PerceptionEvent (ρ : Type) where
  cameraId : String
  frameId : Int
  sourceId : String
  objects : List (ObjectRecord String ρ) := []
  imgWidth : Int := 0
  imgHeight : Int := 0
  imgFps : Int := 0
  capturedUnixNs : Int := 0
  emittedUnixNs : Int := 0
  latencyUs : Int := 0
  missingStages : List String := []
  reason : String := "complete"
  globalIdGroup : Option String := none
  schemaVersion : Int := SCHEMA_VERSION
  type : String := MESSAGE_TYPE
  extra : Dict String (Json ρ) := .empty

/-- The bounds of a box, in order. -/
def bounds {ρ : Type} (b : ρ × ρ × ρ × ρ) : List ρ := [b.1, b.2.1, b.2.2.1, b.2.2.2]

namespace PerceptionEvent

variable {ρ : Type}

def isPartial (e : PerceptionEvent ρ) : Bool := !e.missingStages.isEmpty

def objectsOf (e : PerceptionEvent ρ) (className : String) : List (ObjectRecord String ρ) :=
  e.objects.filter fun o => decide (o.className = className)

/-- One entry an object of the class. -/
def column (objects : List (ObjectRecord String ρ)) (f : ObjectRecord String ρ → Json ρ) : Json ρ := .array (objects.map f)

def bboxList (o : ObjectRecord String ρ) : Json ρ := .array ((bounds o.bbox).map .number)

def asDet2mot (e : PerceptionEvent ρ) : List (String × Json ρ) :=
  let people := e.objectsOf "person"
  [("sub_id", .string e.sourceId),
    ("det_id_vec", column people fun o => .string o.detId),
    ("camera_id", .string e.cameraId),
    ("image_id", .int e.frameId),
    ("det_body_score_vec", column people fun o => .number o.score),
    ("body_bbox_vec", column people bboxList),
    ("body_feature_vec", column people fun o => .array (o.embedding.map .number)),
    ("img_width", .int e.imgWidth),
    ("img_height", .int e.imgHeight),
    ("img_fps", .int e.imgFps)]

/-- What `as_dict` adds to it by `update`. -/
def additions (e : PerceptionEvent ρ) : List (String × Json ρ) :=
  let ships := e.objectsOf "ship"
  let people := e.objectsOf "person"
  [("type", .string e.type),
    ("schema_version", .int e.schemaVersion),
    ("ship_det_id_vec", column ships fun o => .string o.detId),
    ("det_ship_score_vec", column ships fun o => .number o.score),
    ("ship_bbox_vec", column ships bboxList),
    ("ship_feature_vec", column ships fun o => .array (o.embedding.map .number)),
    ("ship_id_vec", column ships fun o => .orNull .int o.shipId),
    ("ship_similarity_vec", column ships fun o => .orNull .number o.similarity),
    ("ship_mask_area_vec", column ships fun o => .orNull .number o.maskAreaPx),
    ("body_track_id_vec", column people fun o => .orNull .int o.trackId),
    ("body_track_state_vec", column people fun o => .orNull .string o.trackState),
    ("ship_track_id_vec", column ships fun o => .orNull .int o.trackId),
    ("ship_track_state_vec", column ships fun o => .orNull .string o.trackState),
    ("body_global_id_vec", column people fun o => .orNull .int o.globalId),
    ("ship_global_id_vec", column ships fun o => .orNull .int o.globalId),
    ("captured_unix_ns", .int e.capturedUnixNs),
    ("emitted_unix_ns", .int e.emittedUnixNs),
    ("latency_us", .int e.latencyUs),
    ("partial", .bool e.isPartial),
    ("missing_stages", .array (e.missingStages.map .string)),
    ("reason", .string e.reason)]

def asDict (e : PerceptionEvent ρ) : Dict String (Json ρ) :=
  let payload := (Dict.empty.update e.asDet2mot).update e.additions
  let payload :=
    match e.globalIdGroup with
    | none => payload
    | some group => payload.set "global_id_group" (.string group)
  if e.extra.entries.isEmpty then payload else payload.set "extra" (.object e.extra.entries)

def toJson (spell : ρ → String) (e : PerceptionEvent ρ) : String := Json.dumps spell (.object e.asDict.entries)

end PerceptionEvent

end ShipInfer.Events
