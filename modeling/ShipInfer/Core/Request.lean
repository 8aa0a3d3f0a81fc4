import ShipInfer.Core.Tensor

/-!
# Requests and responses

`core/request` and the work item of `scheduling/work.py`. A work item's future
is left to the models that settle one.
-/

namespace ShipInfer

inductive Priority
  | trackingCritical
  | high
  | normal
  | background
  deriving DecidableEq

/-- `int(priority)`: the lower is served first. -/
def Priority.level : Priority → Nat
  | .trackingCritical => 0
  | .high => 1
  | .normal => 2
  | .background => 3

def priorityLevels : Nat := 4

theorem Priority.level_lt : ∀ p : Priority, p.level < priorityLevels := by intro p; cases p <;> decide

structure RequestContext where
  cameraId : String := ""
  frameId : Int := -1
  capturedNs : Int := 0
  capturedUnixNs : Int := 0
  traceId : String := ""
  deriving DecidableEq

/-- The reassembly key. -/
def RequestContext.key (ctx : RequestContext) : String × Int := (ctx.cameraId, ctx.frameId)

structure Timings where
  receivedNs : Int := 0
  queuedNs : Int := 0
  batchedNs : Int := 0
  computeStartNs : Int := 0
  computeEndNs : Int := 0
  completedNs : Int := 0
  deriving DecidableEq

structure InferenceRequest where
  modelName : String
  inputs : Dict String Tensor
  requestId : Int
  /-- `none`: the version the repository chose. -/
  modelVersion : Option Int := none
  requestedOutputs : List String := []
  /-- Each parameter with its value as text. -/
  parameters : Dict String String := .empty
  context : RequestContext := {}
  priority : Priority := .normal
  /-- 0 disables it. -/
  deadlineNs : Int := 0
  residentDevice : Option Device := none
  timings : Timings := {}
  deriving DecidableEq

namespace InferenceRequest

/-- The rows of the first input. -/
def batchSize (request : InferenceRequest) : Nat :=
  match request.inputs.values with
  | [] => 0
  | t :: _ => t.batchSize

/-- `is_expired` -/
def isExpired (request : InferenceRequest) (now : Int) : Bool :=
  if request.deadlineNs = 0 then false else decide (request.deadlineNs < now)

end InferenceRequest

structure InferenceResponse where
  requestId : Int
  modelName : String
  modelVersion : Int
  outputs : Dict String Tensor
  context : RequestContext := {}
  timings : Timings := {}
  executedOn : Device := {}
  deriving DecidableEq

structure WorkItem where
  request : InferenceRequest
  enqueuedNs : Int := 0
  deriving DecidableEq

namespace WorkItem

/-- `camera_id or "-"` -/
def fairnessKey (item : WorkItem) : String :=
  if item.request.context.cameraId = "" then "-" else item.request.context.cameraId

/-- `batch_size or 1` -/
def rows (item : WorkItem) : Nat := if item.request.batchSize = 0 then 1 else item.request.batchSize

/-- What a queue writes on an item it takes. -/
def stamped (item : WorkItem) : WorkItem :=
  { item with request := { item.request with timings := { item.request.timings with queuedNs := item.enqueuedNs } } }

theorem rows_pos (item : WorkItem) : 0 < item.rows := by
  unfold rows
  split <;> omega

end WorkItem

end ShipInfer
