import ShipInfer.Lib.Fold
import ShipInfer.Reassembly.Collector

/-!
# The perception graph

`PipelineGraph` of `pipeline/graph/graph.py`, `PipelineStage.run` of
`pipeline/graph/stage.py`, the namespace of a frame in `pipeline/graph/state.py`, and
`_CollectorObserver` of `pipeline/runner.py`. A batch is known by its number of rows,
the frame's pixels by how many they are. What a stage does when it runs is a
parameter.
-/

namespace ShipInfer.Perception

open ShipInfer.Reassembly (PendingFrame PendingKey)

def frameInput : String := "image"

def detectionsName : String := "detections"

/-! ## Stages and frames -/

inductive Cardinality
  | perFrame
  | perObject
  deriving DecidableEq

inductive StageStatus
  | ran
  | skipped
  | failed
  deriving DecidableEq

structure Stage where
  name : String
  consumes : List String := []
  requires : List String := []
  optional : List String := []
  produces : List String := []
  cardinality : Cardinality := .perFrame
  expands : Bool := false
  /-- It is a `ModelStage`. -/
  drivesModel : Bool := false
  deriving DecidableEq

/-- Every name a stage may read, gating or not. -/
def Stage.reads (st : Stage) : List String := st.consumes ++ st.optional

structure FrameState where
  image : Nat
  /-- The detector's rows, once it has answered. -/
  detections : Option Nat := none
  batches : Dict String Nat := .empty

/-- What a stage does to a frame. -/
inductive Effect
  | attach (name : String) (rows : Nat)
  | setDetections (rows : Nat)
  deriving DecidableEq

def Effect.name : Effect → String
  | .attach name _ => name
  | .setDetections _ => detectionsName

/-- What a stage does when it runs; one that fails may have done a part of it. -/
structure Outcome where
  effects : List Effect := []
  failed : Bool := false

namespace FrameState

def attach (s : FrameState) (name : String) (rows : Nat) : FrameState := { s with batches := s.batches.set name rows }

def setDetections (s : FrameState) (rows : Nat) : FrameState := { s with detections := some rows }

def drop (s : FrameState) (name : String) : FrameState := { s with batches := s.batches.erase name }

def releaseImage (s : FrameState) : FrameState := { s with image := 0 }

/-- `name in state.available()` -/
def available (s : FrameState) (name : String) : Bool :=
  s.batches.contains name || (decide (s.image ≠ 0) && name == frameInput) || (s.detections.isSome && name == detectionsName)

/-- `name in state.non_empty()` -/
def nonEmpty (s : FrameState) (name : String) : Bool :=
  (s.batches.get? name).any (fun rows => decide (rows ≠ 0)) || (decide (s.image ≠ 0) && name == frameInput) ||
    (s.detections.any (fun rows => decide (rows ≠ 0)) && name == detectionsName)

def apply (s : FrameState) : Effect → FrameState
  | .attach name rows => s.attach name rows
  | .setDetections rows => s.setDetections rows

/-- What a stage that reads a name finds under it. -/
structure View where
  batch : Option Nat
  image : Option Nat
  detections : Option Nat
  deriving DecidableEq

def view (s : FrameState) (name : String) : View :=
  { batch := s.batches.get? name
    image := if name = frameInput then some s.image else none
    detections := if name = detectionsName then s.detections else none }

end FrameState

/-- `PipelineStage.run`: what it raises is a status. -/
def Stage.run (s : FrameState) (outcome : Outcome) : StageStatus × FrameState :=
  (if outcome.failed then .failed else .ran, outcome.effects.foldl FrameState.apply s)

/-! ## The graph -/

/-- Which fields of a record have a converter. -/
def recordConverters : List String :=
  ["embedding", "ship_id", "similarity", "mask_area_px", "track_id", "track_state", "global_id"]

/-- Why a graph is refused. -/
inductive GraphError
  | noStages
  | unknownFields (names : List String)
  | declaredTwice (names : List String)
  | requiresUnconsumed (stage : String) (names : List String)
  | consumedAndOptional (stage : String) (names : List String)
  | notProduced (stage name : String) (available : List String)
  | cardinality (stage name source : String)
  | model (stage : String)
  | unproduced (names : List String)
  deriving DecidableEq

/-- A set of names, in order. -/
def sorted (names : List String) : List String := names.dedup.insertionSort (· ≤ ·)

structure PipelineGraph where
  stages : List Stage
  fieldMap : List (String × List String)
  nonempty : stages ≠ []
  names_nodup : (stages.map Stage.name).Nodup

namespace PipelineGraph

/-- `PipelineGraph.__init__` -/
def create (stages : List Stage) (fieldMap : List (String × List String)) : Except GraphError PipelineGraph :=
  if h : stages = [] then .error .noStages
  else
    let unknown := sorted ((fieldMap.map Prod.fst).filter fun field => !recordConverters.contains field)
    if unknown ≠ [] then .error (.unknownFields unknown)
    else if hn : (stages.map Stage.name).Nodup then
      .ok { stages := stages, fieldMap := fieldMap, nonempty := h, names_nodup := hn }
    else
      .error (.declaredTwice (sorted ((stages.map Stage.name).filter fun name => decide (1 < (stages.map Stage.name).count name))))

/-- What the event reads, which is never freed. -/
def retain (g : PipelineGraph) : List String := g.fieldMap.flatMap Prod.snd ++ [detectionsName]

/-- `unconditional_stage` -/
def entry (g : PipelineGraph) : Stage := g.stages.head g.nonempty

/-- The last stage to read each name, by number. -/
def lastReader (stages : List (Stage × Nat)) (last : Dict String Nat) : Dict String Nat :=
  stages.foldl (fun last p => p.1.reads.foldl (fun last name => last.set name p.2) last) last

/-- `_compute_liveness`: what is freed after a stage. -/
def deadAfter (g : PipelineGraph) (index : Nat) : List String :=
  ((lastReader g.stages.zipIdx .empty).entries.filter fun p => decide (p.2 = index) && !g.retain.contains p.1).map Prod.fst

/-- Whether a stage's inputs are there, and those it requires not empty. -/
def gate (s : FrameState) (st : Stage) : Bool := st.consumes.all s.available && st.requires.all s.nonEmpty

def runnable (g : PipelineGraph) (s : FrameState) (done : List String) : List String :=
  (g.stages.filter fun st => !done.contains st.name && gate s st).map Stage.name

/-- `_release` -/
def release (s : FrameState) (dead : List String) : FrameState :=
  dead.foldl (fun s name => if name = frameInput then s.releaseImage else s.drop name) s

/-- One round of `execute`: the frame before it, the stages announced, what became of the
round's own. -/
structure Turn where
  stage : Stage
  state : FrameState
  ready : List String
  status : StageStatus

/-- The loop of `execute` over the stages left, each with what is freed after it. -/
def loop (g : PipelineGraph) (outcomes : Stage → Outcome) : List (Stage × List String) → List String → FrameState → List Turn
  | [], _, _ => []
  | (st, dead) :: rest, done, s =>
    let ready := g.runnable s done
    let ran := if ready.contains st.name then Stage.run s (outcomes st) else (.skipped, s)
    { stage := st, state := s, ready := ready, status := ran.1 } ::
      g.loop outcomes rest (st.name :: done) (release ran.2 dead)

def execute (g : PipelineGraph) (outcomes : Stage → Outcome) (s : FrameState) : List Turn :=
  g.loop outcomes (g.stages.zipIdx.map fun p => (p.1, g.deadAfter p.2)) [] s

/-- `execute` without a release, to compare it with. -/
def executeKeeping (g : PipelineGraph) (outcomes : Stage → Outcome) (s : FrameState) : List Turn :=
  g.loop outcomes (g.stages.map fun st => (st, [])) [] s

/-! ## What the collector is told -/

/-- What the graph tells its observer. -/
inductive Call
  | planned (stages : List String)
  | finished (stage : String) (status : StageStatus)
  deriving DecidableEq

def Turn.calls (t : Turn) : List Call :=
  (if t.ready = [] then [] else [.planned t.ready]) ++ [.finished t.stage.name t.status]

/-- `_CollectorObserver` -/
def observe (key : PendingKey) : Call → Option Reassembly.Event
  | .planned stages => some (.expect key stages)
  | .finished stage .ran => some (.deliver key stage)
  | .finished _ .skipped => none
  | .finished _ .failed => none

/-! ## Validation -/

def checkRead (st : Stage) (produced : Dict String Stage) (name : String) : Except GraphError Unit :=
  if name = frameInput then .ok ()
  else
    match produced.get? name with
    | none => .error (.notProduced st.name name (if produced.keys = [] then [frameInput] else sorted produced.keys))
    | some source =>
      if st.expands = false ∧ source.cardinality ≠ st.cardinality then .error (.cardinality st.name name source.name)
      else .ok ()

/-- A round of `validate`. The checks of a stage with its model come as one. -/
def checkStage (modelChecks : Stage → Dict String Stage → Bool) (produced : Dict String Stage) (st : Stage) :
    Except GraphError (Dict String Stage) := do
  let unconsumed := st.requires.filter fun name => !st.consumes.contains name
  if unconsumed ≠ [] then throw (.requiresUnconsumed st.name (sorted unconsumed))
  let both := st.optional.filter fun name => st.consumes.contains name
  if both ≠ [] then throw (.consumedAndOptional st.name (sorted both))
  st.reads.forM (checkRead st produced)
  if st.drivesModel && !modelChecks st produced then throw (.model st.name)
  return produced.update (st.produces.map fun name => (name, st))

def validate (modelChecks : Stage → Dict String Stage → Bool) (g : PipelineGraph) : Except GraphError Unit := do
  let produced ← g.stages.foldlM (checkStage modelChecks) .empty
  let unproduced := g.retain.filter fun name => !produced.contains name
  if unproduced ≠ [] then throw (.unproduced (sorted unproduced))

end PipelineGraph

end ShipInfer.Perception
