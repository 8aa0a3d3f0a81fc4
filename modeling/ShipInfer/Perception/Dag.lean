import ShipInfer.Perception.Cpp

/-!
# The C++ graph, overlapped

`Dag` of `pipeline/graph/dag.h` over the two-phase stages of `stage.h`. A run of
overlapping stages is begun before any of them is finished, and what is ready is
asked once for the run. Against it stands the graph that runs its stages one at a
time and asks before each.
-/

namespace ShipInfer.Perception.Cpp

variable {Crop Row Box Response Future : Type}

/-- What an overlapping stage leaves in the frame. -/
inductive Write (Crop Row Box : Type)
  | payload (p : DevicePayload Crop Box)
  | batch (b : ObjectBatch Row)
  | detections (ds : List (Detection Box))

def Write.name : Write Crop Row Box → String
  | .payload p => p.name
  | .batch b => b.name
  | .detections _ => detectionsName

/-- What a stage that consumes a name finds under it. -/
structure View (Crop Row Box : Type) where
  pixels : Option Bool
  detections : Option (Bool × List (Detection Box) × LetterboxMap)
  payload : Option (DevicePayload Crop Box)
  batch : Option (ObjectBatch Row)

namespace FrameState

def write (s : FrameState Crop Row Box) : Write Crop Row Box → FrameState Crop Row Box
  | .payload p => s.attachPayload p
  | .batch b => s.attach b
  | .detections ds => { s.setDetections ds with detected := true }

def view (s : FrameState Crop Row Box) (name : String) : View Crop Row Box where
  pixels := if name = frameInput then some s.hasPixels else none
  detections := if name = detectionsName then some (s.detected, s.detections, s.letterbox) else none
  payload := s.payloads.get? name
  batch := s.batches.get? name

end FrameState

/-! ## Stages -/

/-- `do_finish`, with what `do_begin` left pending: what it attaches, and its rows or
what it threw. -/
abbrev Finish (Crop Row Box : Type) := FrameState Crop Row Box → List (Write Crop Row Box) × Except Thrown Nat

/-- What a stage does: in one piece, or in two phases, where it overlaps. An
overlapping stage is begun on what it consumes, and attaches what it produces. -/
inductive Work (Crop Row Box : Type) (consumes produces : List String)
  | whole (doRun : FrameState Crop Row Box → Result Crop Row Box)
  | split (doBegin : FrameState Crop Row Box → Except Thrown (Finish Crop Row Box))
      (reads : ∀ s t, (∀ name ∈ consumes, s.view name = t.view name) → doBegin s = doBegin t)
      (writes : ∀ s doFinish, doBegin s = .ok doFinish → ∀ t, ∀ w ∈ (doFinish t).1, w.name ∈ produces)

structure Stage (Crop Row Box : Type) where
  name : String
  consumes : List String
  needs : List String
  produces : List String
  work : Work Crop Row Box consumes produces

structure StageOutcome where
  stage : String
  status : StageStatus
  rows : Nat := 0
  error : Option Thrown := none
  deriving DecidableEq

/-- `attempt`: what it throws is a status. -/
def StageOutcome.attempt (stage : String) : Except Thrown Nat → StageOutcome
  | .ok rows => { stage := stage, status := .ran, rows := rows }
  | .error e => { stage := stage, status := .failed, error := some e }

def StageOutcome.skipped (stage : String) : StageOutcome := { stage := stage, status := .skipped }

namespace Stage

def overlaps (st : Stage Crop Row Box) : Bool :=
  match st.work with
  | .whole _ => false
  | .split _ _ _ => true

/-- `do_begin`, and the `do_finish` it leaves; by default there is nothing to begin. -/
def doBegin (st : Stage Crop Row Box) (s : FrameState Crop Row Box) :
    Except Thrown (FrameState Crop Row Box → Result Crop Row Box) :=
  match st.work with
  | .whole doRun => .ok doRun
  | .split doBegin _ _ => (doBegin s).map fun doFinish t => ((doFinish t).1.foldl FrameState.write t, (doFinish t).2)

/-- `do_run`: both phases. -/
def doRun (st : Stage Crop Row Box) (s : FrameState Crop Row Box) : Result Crop Row Box :=
  match st.doBegin s with
  | .error e => (s, .error e)
  | .ok doFinish => doFinish s

def ready (st : Stage Crop Row Box) (s : FrameState Crop Row Box) : Bool :=
  st.consumes.all s.available.contains && st.needs.all s.nonEmpty.contains

end Stage

/-! ## The graph -/

/-- What the observer is told. -/
inductive Call
  | planned (stages : List String)
  | finished (outcome : StageOutcome)
  deriving DecidableEq

abbrev Dag (Crop Row Box : Type) := List (Stage Crop Row Box)

namespace Dag

def runnable (d : Dag Crop Row Box) (s : FrameState Crop Row Box) (done : List String) : List String :=
  (d.filter fun st => !done.contains st.name && st.ready s).map Stage.name

/-- The loop of `wave_end`: the stages that join a run that produces so far what is
given, and the stages left. -/
def joining (produced : List String) : List (Stage Crop Row Box) → List (Stage Crop Row Box) × List (Stage Crop Row Box)
  | [] => ([], [])
  | st :: rest =>
    if st.overlaps && !st.consumes.any produced.contains then
      let r := joining (produced ++ st.produces) rest
      (st :: r.1, r.2)
    else ([], st :: rest)

/-- `wave_end`: the stages that run with the first, which is left out, and the rest. -/
def waveEnd (first : Stage Crop Row Box) (rest : List (Stage Crop Row Box)) :
    List (Stage Crop Row Box) × List (Stage Crop Row Box) :=
  if first.overlaps then joining first.produces rest else ([], rest)

/-- A frame, what is done, and what the observer was told. -/
structure Progress (Crop Row Box : Type) where
  state : FrameState Crop Row Box
  done : List String := []
  calls : List Call := []

/-- `if (!ready.empty()) observer.planned(ready)` -/
def Progress.plan (p : Progress Crop Row Box) (ready : List String) : Progress Crop Row Box :=
  { p with calls := p.calls ++ if ready = [] then [] else [.planned ready] }

def Progress.finish (p : Progress Crop Row Box) (state : FrameState Crop Row Box) (outcome : StageOutcome) :
    Progress Crop Row Box :=
  { state := state, done := p.done ++ [outcome.stage], calls := p.calls ++ [.finished outcome] }

/-- `Stage::run`, or the skip of a stage that is not ready. -/
def Progress.runOne (p : Progress Crop Row Box) (ready : List String) (st : Stage Crop Row Box) : Progress Crop Row Box :=
  if ready.contains st.name then
    let r := st.doRun p.state
    p.finish r.1 (.attempt st.name r.2)
  else p.finish p.state (.skipped st.name)

/-- A stage of a run that was begun together. -/
def Progress.finishOne (p : Progress Crop Row Box)
    (begun : Stage Crop Row Box × Option (Except Thrown (FrameState Crop Row Box → Result Crop Row Box))) :
    Progress Crop Row Box :=
  match begun.2 with
  | none => p.finish p.state (.skipped begun.1.name)
  | some (.error e) => p.finish p.state (.attempt begun.1.name (.error e))
  | some (.ok doFinish) =>
    let r := doFinish p.state
    p.finish r.1 (.attempt begun.1.name r.2)

/-- One round of `execute`, over a run of stages. -/
def Progress.wave (d : Dag Crop Row Box) (p : Progress Crop Row Box) (first : Stage Crop Row Box)
    (others : List (Stage Crop Row Box)) : Progress Crop Row Box :=
  let ready := d.runnable p.state p.done
  if others = [] then (p.plan ready).runOne ready first
  else
    ((first :: others).map fun st => (st, if ready.contains st.name then some (st.doBegin p.state) else none)).foldl
      Progress.finishOne (p.plan ready)

/-- The loop of `execute`, with fuel for the stages left. -/
def loop (d : Dag Crop Row Box) : Nat → List (Stage Crop Row Box) → Progress Crop Row Box → Progress Crop Row Box
  | 0, _, p => p
  | _ + 1, [], p => p
  | fuel + 1, first :: rest, p =>
    let r := waveEnd first rest
    d.loop fuel r.2 (p.wave d first r.1)

def execute (d : Dag Crop Row Box) (s : FrameState Crop Row Box) : Progress Crop Row Box :=
  d.loop d.length d { state := s }

/-- One stage, after asking what is ready. -/
def Progress.turn (d : Dag Crop Row Box) (p : Progress Crop Row Box) (st : Stage Crop Row Box) : Progress Crop Row Box :=
  let ready := d.runnable p.state p.done
  (p.plan ready).runOne ready st

/-- The graph that runs its stages one at a time. -/
def oneByOne (d : Dag Crop Row Box) (s : FrameState Crop Row Box) : Progress Crop Row Box :=
  d.foldl (Progress.turn d) { state := s }

end Dag

/-- What the stages came to, in order. -/
def Dag.Progress.outcomes (p : Dag.Progress Crop Row Box) : List StageOutcome :=
  p.calls.filterMap fun c => match c with
    | .planned _ => none
    | .finished outcome => some outcome

/-- Every stage announced. -/
def Dag.Progress.planned (p : Dag.Progress Crop Row Box) : List String :=
  p.calls.flatMap fun c => match c with
    | .planned stages => stages
    | .finished _ => []

/-! ## The stages of the plane -/

theorem ObjectBatch.append_name {b c : ObjectBatch Row} {chunk : List Row} {width start : Nat} {indices : List Nat}
    (h : b.append chunk width indices start = .ok c) : c.name = b.name := by
  unfold ObjectBatch.append at h
  split at h
  · cases h; rfl
  · dsimp only at h
    generalize (if b.width = 0 then width else b.width) = rowWidth at h
    split at h
    · cases h
    · split at h
      · cases h
      · cases h; rfl

namespace ObjectStage

theorem receive_name {st : ObjectStage Row Response} {w : World Crop Row Box Response Future} {p : DevicePayload Crop Box}
    {out out' : ObjectBatch Row} {chunk : Nat × Future} (h : st.receive w p out chunk = .ok out') : out'.name = out.name := by
  unfold receive at h
  obtain ⟨response, -, h⟩ := bind_ok.mp h
  dsimp only at h
  split at h
  · cases h
  · obtain ⟨rows, -, h⟩ := bind_ok.mp h
    split at h
    · cases h
    · exact ObjectBatch.append_name h

theorem doFinish_name {st : ObjectStage Row Response} {w : World Crop Row Box Response Future}
    {payload : Option (DevicePayload Crop Box)} {chunks : List (Nat × Future)} {out : ObjectBatch Row} {rows : Nat}
    (h : st.doFinish w payload chunks = .ok (out, rows)) : out.name = st.output := by
  unfold doFinish at h
  cases payload with
  | none => cases h
  | some p =>
    have key : ∀ (chunks : List (Nat × Future)) (b : ObjectBatch Row),
        chunks.foldlM (st.receive w p) b = .ok out → out.name = b.name := by
      intro chunks
      induction chunks with
      | nil => intro b hb; cases hb; rfl
      | cons chunk chunks ih =>
        intro b hb
        rw [List.foldlM_cons] at hb
        obtain ⟨c, hc, hb⟩ := bind_ok.mp hb
        rw [ih c hb, receive_name hc]
    dsimp only at h
    cases hf : chunks.foldlM (st.receive w p) { name := st.output } with
    | error e => rw [hf] at h; cases h
    | ok b => rw [hf] at h; cases h; exact key chunks _ hf

/-- The two phases of an object stage. -/
def phases (st : ObjectStage Row Response) (w : World Crop Row Box Response Future) (s : FrameState Crop Row Box) :
    Except Thrown (Finish Crop Row Box) :=
  (st.doBegin w (s.payloads.get? st.source)).map fun chunks t =>
    match st.doFinish w (t.payloads.get? st.source) chunks with
    | .error e => ([], .error e)
    | .ok (out, rows) => ([.batch out], .ok rows)

def toStage (st : ObjectStage Row Response) (w : World Crop Row Box Response Future) : Stage Crop Row Box where
  name := st.name
  consumes := [st.source]
  needs := [st.source]
  produces := [st.output]
  work := .split (st.phases w)
    (fun s t h => by
      have hp : s.payloads.get? st.source = t.payloads.get? st.source := congrArg View.payload (h _ List.mem_cons_self)
      unfold phases
      rw [hp])
    (fun s doFinish h t e he => by
      unfold phases at h
      cases hb : st.doBegin w (s.payloads.get? st.source) with
      | error e => rw [hb] at h; cases h
      | ok chunks =>
        rw [hb] at h
        cases h
        dsimp only at he
        cases hf : st.doFinish w (t.payloads.get? st.source) chunks with
        | error e => rw [hf] at he; cases he
        | ok r =>
          rw [hf] at he
          rw [List.mem_singleton.mp he]
          exact List.mem_singleton.mpr (doFinish_name hf))

theorem toStage_doRun (st : ObjectStage Row Response) (w : World Crop Row Box Response Future) (s : FrameState Crop Row Box) :
    (st.toStage w).doRun s = st.doRun w s := by
  unfold doRun Stage.doRun Stage.doBegin toStage phases
  dsimp only
  cases hb : st.doBegin w (s.payloads.get? st.source) with
  | error e => rfl
  | ok chunks =>
    dsimp only [Except.map, bind, Except.bind]
    cases st.doFinish w (s.payloads.get? st.source) chunks <;> rfl

end ObjectStage

/-- The stages of the graph, with what each declares. -/
def AnyStage.toStage (st : AnyStage Row Response) (w : World Crop Row Box Response Future) : Stage Crop Row Box :=
  match st with
  | .detect st => ⟨st.name, [frameInput], [frameInput], [detectionsName], .whole (st.doRun w)⟩
  | .crop st => ⟨st.name, [detectionsName, frameInput], [detectionsName], st.crops.map CropSpec.name, .whole (st.doRun w)⟩
  | .object st => st.toStage w
  | .track st => ⟨st.name, [detectionsName], [], [st.output], .whole (st.doRun w)⟩

theorem AnyStage.toStage_doRun (st : AnyStage Row Response) (w : World Crop Row Box Response Future)
    (s : FrameState Crop Row Box) : (st.toStage w).doRun s = st.doRun w s := by
  cases st with
  | object st => exact st.toStage_doRun w s
  | detect st => rfl
  | crop st => rfl
  | track st => rfl

/-- Each needs only names it consumes. -/
theorem AnyStage.needs_consumed (st : AnyStage Row Response) (w : World Crop Row Box Response Future) :
    ∀ name ∈ (st.toStage w).needs, name ∈ (st.toStage w).consumes := by
  intro name h
  cases st with
  | detect st => exact h
  | crop st => exact List.mem_cons.mpr (.inl (List.mem_singleton.mp h))
  | object st => exact h
  | track st => exact absurd h List.not_mem_nil

end ShipInfer.Perception.Cpp
