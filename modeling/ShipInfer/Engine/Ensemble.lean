import ShipInfer.Core.Tensor

/-!
# Model configs and the wiring of an ensemble

What `start` of `engine/ensemble` checks of a graph before it accepts work. The walk
takes the config of each step's model as it is resolved, one step at a time.
-/

namespace ShipInfer.Engine

structure EnsembleStep where
  model : String
  inputMap : Dict String String := .empty
  outputMap : Dict String String := .empty
  condition : Option String := none
  deriving DecidableEq

/-- The condition, unless it is none or empty. -/
def EnsembleStep.guard (step : EnsembleStep) : Option String := step.condition.filter (· ≠ "")

structure ModelConfig where
  name : String
  platform : String
  inputs : List TensorSpec := []
  outputs : List TensorSpec := []
  /-- The steps of the `ensemble:` section. -/
  ensemble : Option (List EnsembleStep) := none
  coherent : if platform = "ensemble" then ensemble.isSome else inputs ≠ [] ∧ outputs ≠ []
  nonEmpty : ensemble ≠ some []
  distinct : ((inputs ++ outputs).map TensorSpec.name).Nodup
  deriving DecidableEq

namespace ModelConfig

def isEnsemble (c : ModelConfig) : Bool := decide (c.platform = "ensemble")

/-- The steps of its `ensemble:` section, none without one. -/
def steps (c : ModelConfig) : List EnsembleStep := c.ensemble.getD []

end ModelConfig

structure StepPlan where
  index : Nat
  step : EnsembleStep
  reads : List String
  writes : List String
  deriving DecidableEq

inductive GraphError
  /-- `input <spec> maps to <source>, which no earlier step produces` -/
  | noProducer (index : Nat) (model input source : String) (available : List String)
  /-- `input <spec> is <dtype> but <source> is produced as <dtype>` -/
  | wrongDtype (index : Nat) (model input source : String) (dtype produced : DataType)
  /-- `input <spec> expects <spec> but <source> is produced as <spec>` -/
  | wrongShape (index : Nat) (model : String) (spec : TensorSpec) (source : String) (produced : TensorSpec)
  /-- `input <spec> reads <source>, which only exists when an earlier conditional step runs` -/
  | conditionalRead (index : Nat) (model input source : String)
  /-- `condition <name> is not produced by any earlier step` -/
  | noCondition (index : Nat) (model condition : String) (available : List String)
  /-- `tensor spec needs a name` -/
  | unnamed
  /-- `declares output <name> that no step produces` -/
  | noOutput (name : String)
  /-- `declares output <spec> but the graph produces <spec>` -/
  | wrongOutput (spec produced : TensorSpec)
  /-- `step <index> (<model>) reads <name>, which step(s) <late> also write` -/
  | lateProducer (index : Nat) (model name : String) (late : List Nat)
  deriving DecidableEq

/-- `TensorSpec.matches`, of a declared shape. -/
def matchesDeclared (spec : TensorSpec) (shape : List Int) : Bool :=
  decide (shape.length = spec.shape.length) &&
    (spec.shape.zip shape).all fun p => decide (p.1 = dynamic) || decide (p.1 = p.2)

/-- What the walk carries from step to step. -/
structure Wiring where
  available : Dict String TensorSpec
  /-- Tensors that exist only when some branch ran. -/
  conditional : List String := []
  plans : List StepPlan := []
  deriving DecidableEq

namespace Wiring

def names (w : Wiring) : List String := w.available.keys.insertionSort (· ≤ ·)

def checkInput (w : Wiring) (index : Nat) (step : EnsembleStep) (reads : List String) (spec : TensorSpec) :
    Except GraphError (List String) :=
  let source := (step.inputMap.get? spec.name).getD spec.name
  match w.available.get? source with
  | none =>
    if spec.optional then .ok (reads.insert source)
    else .error (.noProducer index step.model spec.name source w.names)
  | some produced =>
    if produced.dtype ≠ spec.dtype then
      .error (.wrongDtype index step.model spec.name source spec.dtype produced.dtype)
    else if ¬ matchesDeclared spec produced.shape then .error (.wrongShape index step.model spec source produced)
    else if source ∈ w.conditional ∧ step.guard = none then
      .error (.conditionalRead index step.model spec.name source)
    else .ok (reads.insert source)

def checkCondition (w : Wiring) (index : Nat) (step : EnsembleStep) (reads : List String) :
    Except GraphError (List String) :=
  match step.guard with
  | none => .ok reads
  | some condition =>
    if w.available.contains condition then .ok (reads.insert condition)
    else .error (.noCondition index step.model condition w.names)

/-- An output under the name the step writes it to. -/
def rename (spec : TensorSpec) (name : String) : Except GraphError TensorSpec :=
  if h : name = "" then .error .unnamed
  else .ok { spec with name, named := h }

def addOutput (step : EnsembleStep) (r : Wiring × List String) (spec : TensorSpec) :
    Except GraphError (Wiring × List String) := do
  let name := (step.outputMap.get? spec.name).getD spec.name
  let renamed ← rename spec name
  let conditional := if step.guard.isSome then r.1.conditional.insert name else r.1.conditional
  return ({ r.1 with available := r.1.available.set name renamed, conditional }, r.2.insert name)

/-- One turn of the walk, with the config of the model `step` names. -/
def addStep (w : Wiring) (step : EnsembleStep) (config : ModelConfig) : Except GraphError Wiring := do
  let index := w.plans.length
  let reads ← config.inputs.foldlM (w.checkInput index step) []
  let reads ← w.checkCondition index step reads
  let r ← config.outputs.foldlM (addOutput step) (w, [])
  return { r.1 with plans := w.plans ++ [{ index, step, reads, writes := r.2 }] }

def checkOutput (w : Wiring) (spec : TensorSpec) : Except GraphError Unit :=
  match w.available.get? spec.name with
  | none => .error (.noOutput spec.name)
  | some produced =>
    if produced.dtype ≠ spec.dtype ∨ ¬ matchesDeclared spec produced.shape then .error (.wrongOutput spec produced)
    else .ok ()

/-- The later steps that also write `name`. -/
def later (w : Wiring) (plan : StepPlan) (name : String) : List Nat :=
  (w.plans.filter fun p => decide (name ∈ p.writes) && decide (plan.index < p.index)).map (·.index)

/-- `_refuse_late_producers` -/
def refuseLateProducers (w : Wiring) : Except GraphError Unit :=
  w.plans.forM fun plan => plan.reads.forM fun name =>
    if w.later plan name = [] then .ok ()
    else .error (.lateProducer plan.index plan.step.model name (w.later plan name))

/-- What is left of `start` when every step's model is resolved. -/
def close (w : Wiring) (outputs : List TensorSpec) : Except GraphError Unit := do
  outputs.forM w.checkOutput
  w.refuseLateProducers

end Wiring

def ModelConfig.wiring (c : ModelConfig) : Wiring := { available := specsByName c.inputs }

end ShipInfer.Engine
