import ShipInfer.Core.Request
import ShipInfer.Engine.Ensemble
import ShipInfer.Lib.Machine

/-!
# Requests on their way through an ensemble

`infer` of `engine/ensemble` and all it sets off: the pool's tasks, the threads that
pump a graph, the steps' futures and the one terminal transition. A thread acts from
one lock to the next, and any thread may act at any time. What the code outside gives
a thread (a model, a refusal, an escaping exception) comes with its turn.
-/

namespace ShipInfer.Engine

/-! ## The graph -/

/-- `_validate_graph` and `_refuse_late_producers`, for the configs of the steps' models. -/
def validateGraph (c : ModelConfig) (models : List ModelConfig) : Except GraphError (List StepPlan) := do
  let w ← (c.steps.zip models).foldlM (fun w p => w.addStep p.1 p.2) c.wiring
  w.close c.outputs
  return w.plans

/-- An ensemble that `start` accepted. -/
structure EnsembleGraph where
  config : ModelConfig
  /-- The config of the model that each step names. -/
  models : List ModelConfig
  plans : List StepPlan
  resolved : models.length = config.steps.length
  accepted : validateGraph config models = .ok plans

/-- `_waits_on`: the producers of what a step reads, of those declared before it. -/
def EnsembleGraph.waitsOn (g : EnsembleGraph) (plan : StepPlan) : List Nat :=
  (g.plans.filter fun p => decide (p.index < plan.index) && plan.reads.any fun name => decide (name ∈ p.writes)).map
    StepPlan.index

/-! ## What a step gets -/

inductive RunError
  /-- `step <model> needs <source>, which is not in the namespace` -/
  | needs (model source : String) (names : List String)
  | raised (error : String)
  /-- `RequestCancelledError` -/
  | stopped
  deriving DecidableEq

/-- Whether the bytes of one element are not zero. A float has a sign bit. -/
def nonzero (dtype : DataType) (bytes : List UInt8) : Bool :=
  match dtype with
  | .fp16 | .fp32 | .fp64 => bytes.dropLast.any (· ≠ 0) || (bytes.getLast?.any fun b => decide (b &&& 0x7f ≠ 0))
  | _ => bytes.any (· ≠ 0)

/-- `_is_truthy` -/
def isTruthy : Option Tensor → Bool
  | none => false
  | some t =>
    if 0 ∈ t.shape then false
    else if t.handle.isSome then true
    else (chunks t.dtype.itemsize (elementCount t.shape) t.data).any (nonzero t.dtype)

/-- The name in the ensemble's namespace that an input of the step is read from. -/
def EnsembleStep.source (step : EnsembleStep) (name : String) : String := (step.inputMap.get? name).getD name

/-- The name that an output of the step is written to. -/
def EnsembleStep.target (step : EnsembleStep) (name : String) : String := (step.outputMap.get? name).getD name

/-- `_step_inputs` -/
def stepInputs (step : EnsembleStep) (config : ModelConfig) (namesp : Dict String Tensor) :
    Except RunError (Dict String Tensor) :=
  config.inputs.foldlM (fun inputs spec =>
    match namesp.get? (step.source spec.name) with
    | none =>
      if spec.optional then .ok inputs
      else .error (.needs step.model (step.source spec.name) (namesp.keys.insertionSort (· ≤ ·)))
    | some tensor => .ok (inputs.set spec.name tensor)) .empty

/-- It fails only for an input that it must have. -/
theorem stepInputs_error {step : EnsembleStep} {config : ModelConfig} {namesp : Dict String Tensor} {e : RunError}
    (h : stepInputs step config namesp = .error e) : ∃ spec ∈ config.inputs, spec.optional = false ∧
      namesp.get? (step.source spec.name) = none ∧ ∃ names, e = .needs step.model (step.source spec.name) names := by
  obtain ⟨spec, hspec, inputs, hround⟩ := exists_of_foldlM_error h
  split at hround
  · rename_i hnone
    split at hround
    · cases hround
    · rename_i hrequired
      cases hround
      exact ⟨spec, hspec, Bool.eq_false_iff.mpr hrequired, hnone, _, rfl⟩
  · cases hround

/-- A declared output that no branch wrote has no rows. -/
def zeroRows (spec : TensorSpec) : Tensor where
  dtype := spec.dtype
  shape := 0 :: spec.shape.map Int.toNat
  data := []
  sized := by simp [elementCount_cons]

/-- `_collect_outputs` -/
def collectOutputs (config : ModelConfig) (namesp : Dict String Tensor) : Dict String Tensor :=
  config.outputs.foldl (fun outputs spec => outputs.set spec.name ((namesp.get? spec.name).getD (zeroRows spec))) .empty

/-- `_Execution` -/
structure Execution where
  namesp : Dict String Tensor
  /-- Steps that are dispatched or skipped. -/
  started : List Nat := []
  /-- Steps that will never produce anything more. -/
  finished : List Nat := []
  writtenBy : Dict String Nat := .empty
  settled : Bool := false

namespace Execution

/-- `_take_ready`, but for the marks. -/
def ready (g : EnsembleGraph) (x : Execution) : List StepPlan :=
  g.plans.filter fun p => decide (p.index ∉ x.started) && (g.waitsOn p).all fun j => decide (j ∈ x.finished)

/-- An output of a step that is done, unless a later step wrote the name already. -/
def write (plan : StepPlan) (x : Execution) (output : String × Tensor) : Execution :=
  let target := plan.step.target output.1
  if (x.writtenBy.get? target).all (· ≤ plan.index) then
    { x with namesp := x.namesp.set target output.2, writtenBy := x.writtenBy.set target plan.index }
  else x

/-- What `_step_done` does under the lock. -/
def stepDone (plan : StepPlan) (outputs : Dict String Tensor) (x : Execution) : Execution :=
  let x := outputs.entries.foldl (write plan) x
  { x with finished := x.finished ++ [plan.index] }

/-- The condition of a step says that it does not run. -/
def skips (x : Execution) (step : EnsembleStep) : Bool :=
  match step.condition with
  | none => false
  | some condition => !isTruthy (if condition = "" then none else x.namesp.get? condition)

end Execution

/-! ## One request -/

inductive CallerFuture
  | pending
  | running
  | cancelled
  | answered (outputs : Dict String Tensor)
  | failed (error : RunError)

/-- What a terminal transition tells the caller. -/
inductive Ending
  /-- The caller had cancelled. -/
  | nothing
  | answers (outputs : Dict String Tensor)
  | fails (error : RunError)

/-- `_claim`, and after it `_settle`. -/
inductive Stage
  | claim
  | discard
  | release
  | settle
  deriving DecidableEq

inductive Work
  | begin
  | advance
  deriving DecidableEq

/-- Where a thread stands between two locks. -/
inductive Thread
  | enlisting
  | submitting (work : Work)
  /-- `_begin`, past its look at `settled`. -/
  | entering
  | pumping
  | completing
  | dispatching (todo : List StepPlan) (progressed : Bool)
  | skipping (index : Nat) (todo : List StepPlan)
  /-- On the way out; `next` is the dispatch it goes back to. -/
  | closing (stage : Stage) (outcome : Ending) (next : Option (List StepPlan × Bool))

structure Flight where
  execution : Execution
  future : CallerFuture := .pending
  /-- In `_live`. -/
  listed : Bool := false
  /-- How often its slot was given back. -/
  releases : Nat := 0
  /-- How often its future came to an end. -/
  settlements : Nat := 0
  /-- `_begin` waits in the pool. -/
  begins : Bool := false
  /-- How many `_advance` wait in the pool. -/
  advances : Nat := 0
  /-- Steps whose models have not answered. -/
  running : List StepPlan := []
  /-- What the code does not keep: the steps that were handed to their models, and what came back of them. -/
  ran : List Nat := []
  returned : List (StepPlan × Dict String Tensor) := []
  threads : List Thread := []

/-- What a thread meets outside. -/
structure Answer where
  /-- What `_resolve` gives. -/
  model : Except String ModelConfig := .error ""
  /-- What `infer` of the step's model raises. -/
  refusal : Option String := none
  /-- What escapes the scheduler itself. -/
  escape : Option String := none

namespace Flight

def failing (error : RunError) (next : Option (List StepPlan × Bool)) : Thread := .closing .claim (.fails error) next

def resume : Option (List StepPlan × Bool) → Option Thread
  | none => none
  | some (todo, progressed) => some (.dispatching todo progressed)

/-- `_settle` -/
def settle (f : Flight) : Ending → Flight
  | .nothing => f
  | .answers outputs =>
    match f.future with
    | .pending | .running => { f with future := .answered outputs, settlements := f.settlements + 1 }
    | _ => f
  | .fails error =>
    match f.future with
    | .pending | .running => { f with future := .failed error, settlements := f.settlements + 1 }
    | _ => f

/-- One turn of `_pump`, up to the first dispatch. -/
def pump (g : EnsembleGraph) (f : Flight) : Flight × Option Thread :=
  if f.execution.settled then (f, none)
  else
    match f.execution.ready g with
    | [] => if f.execution.finished.length = g.plans.length then (f, some .completing) else (f, none)
    | p :: ps =>
      ({ f with execution := { f.execution with started := f.execution.started ++ (p :: ps).map StepPlan.index } },
        some (.dispatching (p :: ps) false))

/-- `_dispatch` of one step that is claimed. -/
def dispatch (answer : Answer) (f : Flight) (plan : StepPlan) (todo : List StepPlan) (progressed : Bool) :
    Flight × Option Thread :=
  if f.execution.settled then (f, some (.dispatching todo progressed))
  else if f.execution.skips plan.step then (f, some (.skipping plan.index todo))
  else
    match answer.model with
    | .error e => (f, some (failing (.raised e) (some (todo, progressed))))
    | .ok config =>
      match stepInputs plan.step config f.execution.namesp with
      | .error e => (f, some (failing e (some (todo, progressed))))
      | .ok _ =>
        match answer.refusal with
        | some e => (f, some (failing (.raised e) (some (todo, progressed))))
        | none =>
          ({ f with running := f.running ++ [plan], ran := f.ran ++ [plan.index] }, some (.dispatching todo progressed))

/-- `_claim` and `_settle`, one part at a time. -/
def close (f : Flight) (outcome : Ending) (next : Option (List StepPlan × Bool)) : Stage → Flight × Option Thread
  | .claim =>
    if f.execution.settled then (f, resume next)
    else ({ f with execution := { f.execution with settled := true } }, some (.closing .discard outcome next))
  | .discard => ({ f with listed := false }, some (.closing .release outcome next))
  | .release => ({ f with releases := f.releases + 1 }, some (.closing .settle outcome next))
  | .settle => (f.settle outcome, resume next)

/-- What a thread does next, and where it then stands, if anywhere. -/
def act (g : EnsembleGraph) (poolUp : Bool) (answer : Answer) (f : Flight) : Thread → Flight × Option Thread
  | .enlisting => ({ f with listed := true }, some (.submitting .begin))
  | .submitting work =>
    if poolUp then
      match work with
      | .begin => ({ f with begins := true }, none)
      | .advance => ({ f with advances := f.advances + 1 }, none)
    else (f, some (failing .stopped none))
  | .entering =>
    match f.future with
    | .pending => ({ f with future := .running }, some .pumping)
    | .cancelled => (f, some (.closing .claim .nothing none))
    | _ => (f, none)
  | .pumping =>
    match answer.escape with
    | some e => (f, some (failing (.raised e) none))
    | none => f.pump g
  | .completing =>
    match answer.escape with
    | some e => (f, some (failing (.raised e) none))
    | none =>
      if f.execution.settled then (f, none)
      else (f, some (.closing .claim (.answers (collectOutputs g.config f.execution.namesp)) none))
  | .dispatching [] progressed => (f, if progressed then some .pumping else none)
  | .dispatching (plan :: todo) progressed =>
    match answer.escape with
    | some e => (f, some (failing (.raised e) none))
    | none => f.dispatch answer plan todo progressed
  | .skipping index todo =>
    ({ f with execution := { f.execution with finished := f.execution.finished ++ [index] } },
      some (.dispatching todo true))
  | .closing stage outcome next => f.close outcome next stage

/-- `_step_done`: the callback of a step's future. -/
def finish (f : Flight) (plan : StepPlan) (result : Except String (Dict String Tensor)) : Flight :=
  match result with
  | .error e => { f with threads := f.threads ++ [failing (.raised e) none] }
  | .ok outputs =>
    if f.execution.settled then f
    else
      { f with
        execution := f.execution.stepDone plan outputs
        returned := f.returned ++ [(plan, outputs)]
        threads := f.threads ++ [.submitting .advance] }

inductive Event
  | act (k : Nat) (answer : Answer)
  /-- The pool runs `_begin`. -/
  | begin
  | advance
  /-- The `k`-th running step's model answers. -/
  | finish (k : Nat) (result : Except String (Dict String Tensor))
  /-- The caller cancels the future. -/
  | cancel
  /-- `stop` comes to it. -/
  | sweep

def step (g : EnsembleGraph) (poolUp : Bool) (f : Flight) : Event → Option Flight
  | .act k answer =>
    (f.threads[k]?).map fun t =>
      let r := f.act g poolUp answer t
      { r.1 with threads := f.threads.eraseIdx k ++ r.2.toList }
  | .begin =>
    if f.begins then
      some { f with begins := false, threads := if f.execution.settled then f.threads else f.threads ++ [.entering] }
    else none
  | .advance =>
    if 0 < f.advances then some { f with advances := f.advances - 1, threads := f.threads ++ [.pumping] } else none
  | .finish k result =>
    (f.running[k]?).map fun plan => finish { f with running := f.running.eraseIdx k } plan result
  | .cancel =>
    match f.future with
    | .pending => some { f with future := .cancelled, settlements := f.settlements + 1 }
    | _ => none
  | .sweep => if f.listed then some { f with threads := f.threads ++ [failing .stopped none] } else none

/-- A request that has its slot. -/
def accept (inputs : Dict String Tensor) : Flight := { execution := { namesp := inputs }, threads := [.enlisting] }

/-! ## What a thread can do -/

/-- How a thread comes to fail the request, and where it goes on. -/
inductive Fails (f : Flight) (answer : Answer) : Thread → RunError → Option (List StepPlan × Bool) → Prop
  | stopped {work} : Fails f answer (.submitting work) .stopped none
  | pumping {e} : Fails f answer .pumping (.raised e) none
  | completing {e} : Fails f answer .completing (.raised e) none
  | escaped {plan todo progressed e} : Fails f answer (.dispatching (plan :: todo) progressed) (.raised e) none
  | refused {plan todo progressed e} :
    Fails f answer (.dispatching (plan :: todo) progressed) (.raised e) (some (todo, progressed))
  | needs {plan todo progressed config e} : f.execution.settled = false → f.execution.skips plan.step = false →
    answer.model = .ok config → stepInputs plan.step config f.execution.namesp = .error e →
    Fails f answer (.dispatching (plan :: todo) progressed) e (some (todo, progressed))

/-- All that a thread can do in one turn. -/
inductive Acts (g : EnsembleGraph) (f : Flight) (answer : Answer) : Thread → Flight → Option Thread → Prop
  | enlist : Acts g f answer .enlisting { f with listed := true } (some (.submitting .begin))
  | begins : Acts g f answer (.submitting .begin) { f with begins := true } none
  | advances : Acts g f answer (.submitting .advance) { f with advances := f.advances + 1 } none
  | fail {t e next} : Fails f answer t e next → Acts g f answer t f (some (failing e next))
  | enter : f.future = .pending → Acts g f answer .entering { f with future := .running } (some .pumping)
  | retire : f.future = .cancelled → Acts g f answer .entering f (some (.closing .claim .nothing none))
  | late : f.future ≠ .pending → f.future ≠ .cancelled → Acts g f answer .entering f none
  | left : f.execution.settled = true → Acts g f answer .pumping f none
  | complete : f.execution.settled = false → f.execution.ready g = [] → f.execution.finished.length = g.plans.length →
    Acts g f answer .pumping f (some .completing)
  | rest : f.execution.settled = false → f.execution.ready g = [] → f.execution.finished.length ≠ g.plans.length →
    Acts g f answer .pumping f none
  | take : f.execution.settled = false → f.execution.ready g ≠ [] → Acts g f answer .pumping
    { f with execution :=
        { f.execution with started := f.execution.started ++ (f.execution.ready g).map StepPlan.index } }
    (some (.dispatching (f.execution.ready g) false))
  | late' : f.execution.settled = true → Acts g f answer .completing f none
  | reply : f.execution.settled = false → Acts g f answer .completing f
    (some (.closing .claim (.answers (collectOutputs g.config f.execution.namesp)) none))
  | again : Acts g f answer (.dispatching [] true) f (some .pumping)
  | spent : Acts g f answer (.dispatching [] false) f none
  | drop {plan todo progressed} : f.execution.settled = true →
    Acts g f answer (.dispatching (plan :: todo) progressed) f (some (.dispatching todo progressed))
  | skip {plan todo progressed} : f.execution.settled = false → f.execution.skips plan.step = true →
    Acts g f answer (.dispatching (plan :: todo) progressed) f (some (.skipping plan.index todo))
  | launch {plan todo progressed config inputs} : f.execution.settled = false → f.execution.skips plan.step = false →
    answer.model = .ok config → stepInputs plan.step config f.execution.namesp = .ok inputs →
    Acts g f answer (.dispatching (plan :: todo) progressed)
      { f with running := f.running ++ [plan], ran := f.ran ++ [plan.index] } (some (.dispatching todo progressed))
  | skipped {index todo} : Acts g f answer (.skipping index todo)
    { f with execution := { f.execution with finished := f.execution.finished ++ [index] } }
    (some (.dispatching todo true))
  | beaten {outcome next} : f.execution.settled = true → Acts g f answer (.closing .claim outcome next) f (resume next)
  | claim {outcome next} : f.execution.settled = false → Acts g f answer (.closing .claim outcome next)
    { f with execution := { f.execution with settled := true } } (some (.closing .discard outcome next))
  | discard {outcome next} : Acts g f answer (.closing .discard outcome next) { f with listed := false }
    (some (.closing .release outcome next))
  | release {outcome next} : Acts g f answer (.closing .release outcome next) { f with releases := f.releases + 1 }
    (some (.closing .settle outcome next))
  | settle {outcome next} : Acts g f answer (.closing .settle outcome next) (f.settle outcome) (resume next)

section
variable {g : EnsembleGraph} {answer : Answer} {f : Flight}

theorem pump_acts : Acts g f answer .pumping (f.pump g).1 (f.pump g).2 := by
  unfold pump
  by_cases hs : f.execution.settled = true
  · rw [if_pos hs]
    exact .left hs
  rw [if_neg hs]
  have hs := Bool.eq_false_iff.mpr hs
  cases hr : f.execution.ready g with
  | nil =>
    by_cases hf : f.execution.finished.length = g.plans.length
    · simp only [if_pos hf]
      exact .complete hs hr hf
    · simp only [if_neg hf]
      exact .rest hs hr hf
  | cons p ps =>
    have hne : f.execution.ready g ≠ [] := by simp [hr]
    have htake := @Acts.take g f answer hs hne
    rw [hr] at htake
    exact htake

theorem dispatch_acts {plan : StepPlan} {todo : List StepPlan} {progressed : Bool} :
    Acts g f answer (.dispatching (plan :: todo) progressed) (f.dispatch answer plan todo progressed).1
      (f.dispatch answer plan todo progressed).2 := by
  unfold dispatch
  by_cases hs : f.execution.settled = true
  · rw [if_pos hs]
    exact .drop hs
  rw [if_neg hs]
  have hs := Bool.eq_false_iff.mpr hs
  by_cases hskip : f.execution.skips plan.step = true
  · rw [if_pos hskip]
    exact .skip hs hskip
  rw [if_neg hskip]
  have hskip := Bool.eq_false_iff.mpr hskip
  cases hmodel : answer.model with
  | error e => exact .fail .refused
  | ok config =>
    cases hinputs : stepInputs plan.step config f.execution.namesp with
    | error e =>
      simp only [hinputs]
      exact .fail (.needs hs hskip hmodel hinputs)
    | ok inputs =>
      simp only [hinputs]
      cases answer.refusal with
      | some e => exact .fail .refused
      | none => exact .launch hs hskip hmodel hinputs

theorem acts (poolUp : Bool) (t : Thread) : Acts g f answer t (f.act g poolUp answer t).1 (f.act g poolUp answer t).2 := by
  cases t with
  | enlisting => exact .enlist
  | submitting work =>
    unfold act
    cases poolUp with
    | false => exact .fail .stopped
    | true =>
      cases work with
      | begin => exact .begins
      | advance => exact .advances
  | entering =>
    unfold act
    cases hf : f.future with
    | pending => exact .enter hf
    | cancelled => exact .retire hf
    | running => exact .late (by simp [hf]) (by simp [hf])
    | answered outputs => exact .late (by simp [hf]) (by simp [hf])
    | failed e => exact .late (by simp [hf]) (by simp [hf])
  | pumping =>
    unfold act
    cases answer.escape with
    | some e => exact .fail .pumping
    | none => exact pump_acts
  | completing =>
    unfold act
    cases answer.escape with
    | some e => exact .fail .completing
    | none =>
      by_cases hs : f.execution.settled = true
      · simp only [if_pos hs]
        exact .late' hs
      · simp only [if_neg hs]
        exact .reply (Bool.eq_false_iff.mpr hs)
  | dispatching todo progressed =>
    cases todo with
    | nil =>
      cases progressed with
      | true => exact .again
      | false => exact .spent
    | cons plan todo =>
      unfold act
      cases answer.escape with
      | some e => exact .fail .escaped
      | none => exact dispatch_acts
  | skipping index todo => exact .skipped
  | closing stage outcome next =>
    cases stage with
    | claim =>
      unfold act close
      by_cases hs : f.execution.settled = true
      · simp only [if_pos hs]
        exact .beaten hs
      · simp only [if_neg hs]
        exact .claim (Bool.eq_false_iff.mpr hs)
    | discard => exact .discard
    | release => exact .release
    | settle => exact .settle

end

end Flight

/-! ## All requests -/

structure EnsembleState where
  /-- Slots that the semaphore has left. -/
  free : Nat
  started : Bool := true
  poolUp : Bool := true
  /-- Callers that `infer` let in and that have not come to the semaphore. -/
  callers : Nat := 0
  flights : List Flight := []

inductive EnsembleEvent
  | call
  | acquire (inputs : Dict String Tensor)
  | flight (i : Nat) (event : Flight.Event)
  | stop
  | shutdown

def EnsembleState.step (g : EnsembleGraph) (s : EnsembleState) : EnsembleEvent → Option EnsembleState
  | .call => if s.started then some { s with callers := s.callers + 1 } else none
  | .acquire inputs =>
    if s.callers = 0 then none
    else if validateAgainst inputs g.config.inputs .input = .ok () ∧ 0 < s.free then
      some { s with callers := s.callers - 1, free := s.free - 1, flights := s.flights ++ [.accept inputs] }
    else some { s with callers := s.callers - 1 }
  | .flight i event =>
    match s.flights[i]? with
    | none => none
    | some f =>
      (f.step g s.poolUp event).map fun f' =>
        { s with flights := s.flights.set i f', free := s.free + (f'.releases - f.releases) }
  | .stop => some { s with started := false }
  | .shutdown => some { s with poolUp := false }

def ensemble (g : EnsembleGraph) (capacity : Nat) : Machine EnsembleState EnsembleEvent where
  init s := s = { free := capacity }
  step s e t := s.step g e = some t

end ShipInfer.Engine
