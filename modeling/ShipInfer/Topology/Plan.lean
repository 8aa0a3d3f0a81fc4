import Mathlib.Data.Char
import Mathlib.Data.List.Lex
import Mathlib.Data.Prod.Lex
import Mathlib.Order.Lex
import ShipInfer.Lib.Dict
import ShipInfer.Lib.Doubles
import ShipInfer.Lib.Lines

/-!
# A resolved chain as text

`topology/plan.py`: a resolved chain is written one fact a line, and read back. What a
reader refuses is told by its kind and the values its text names.
-/

namespace ShipInfer.Plan

open Lib

abbrev Text := List Char

/-- `sorted` of pairs. -/
def sortedPairs {κ ν : Type*} [LinearOrder κ] [LinearOrder ν] (l : List (κ × ν)) : List (κ × ν) :=
  l.mergeSort fun a b => decide (toLex a ≤ toLex b)

structure PlanNode where
  slot : Text
  kind : Text
  impl : Text
  model : Option Text := none
  /-- `none` selects every row, an empty list none. -/
  classes : Option (List Text) := none
  crop : Option (Int × Int) := none
  letterbox : Option (Int × Int) := none
  scoreThreshold : Option Double := none
  maxDetections : Option Int := none
  instances : Option Int := none
  queueDelayUs : Option Int := none
  artefact : Option Text := none
  foldScore : Option Double := none
  foldMask : Option Double := none
  foldDetections : Option Text := none
  foldPrototypes : Option Text := none
  when : Option Text := none
  per : Option Text := none
  scope : Option Text := none
  syncWindowMs : Option Double := none
  maxInstants : Option Int := none
  group : Option Text := none
  cameras : List Text := []
  minHits : Option Int := none
  minHeightFraction : Option Double := none
  regressionReset : Option Int := none
  trackerOptions : List (Text × Text) := []
  algorithm : Text := []
  deriving DecidableEq

structure PlanSettings where
  workers : Int
  pipelineQueue : Int
  instanceQueue : Int
  enqueueBlockTimeoutMs : Int
  stageTimeoutMs : Int
  reassemblyCapacity : Int
  reassemblyTimeoutMs : Int
  reassemblySweepMs : Int
  deriving DecidableEq

/-- `SETTING_BOUNDS`: each key with the smallest value it may carry. -/
def settingBounds : List (String × Int) :=
  [("workers", 1), ("pipeline_queue", 1), ("instance_queue", 1), ("enqueue_block_timeout_ms", 0), ("stage_timeout_ms", 1),
    ("reassembly_capacity", 1), ("reassembly_timeout_ms", 1), ("reassembly_sweep_ms", 1)]

def settingKeys : List Text := settingBounds.map fun bound => bound.1.toList

/-- The values under their keys, in the order of `SETTING_KEYS`. -/
def PlanSettings.items (s : PlanSettings) : List (Text × Int) :=
  settingKeys.zip
    [s.workers, s.pipelineQueue, s.instanceQueue, s.enqueueBlockTimeoutMs, s.stageTimeoutMs, s.reassemblyCapacity,
      s.reassemblyTimeoutMs, s.reassemblySweepMs]

def planVersion : Int := 3

structure ResolvedPlan where
  name : Text
  nodes : List PlanNode
  edges : List (Text × Text × Text) := []
  labels : Dict Int Text := .empty
  fields : Dict Text (List Text) := .empty
  settings : Option PlanSettings := none
  policy : Text := []
  policyOptions : Dict Text Text := .empty
  version : Int := planVersion
  deriving DecidableEq

/-! ## Writing -/

def line (verb : String) (args : List Text) : Text := unwords (verb.toList :: args)

/-- The line of an attribute that is stated, where an empty text is not. -/
def wordLine (verb : String) (value : Option Text) : List Text :=
  (value.filter fun text => decide (text ≠ [])).toList.map fun text => line verb [text]

def classesLine (classes : Option (List Text)) : List Text :=
  classes.toList.map fun labels =>
    let joined := [','].intercalate labels
    line "classes" [if joined = [] then ['-'] else joined]

def extentLine (verb : String) (extent : Option (Int × Int)) : List Text :=
  extent.toList.map fun e => line verb [intText e.1, intText e.2]

def countLine (verb : String) (count : Option Int) : List Text := count.toList.map fun n => line verb [intText n]

def numberLine (verb : String) (number : Option Double) : List Text := number.toList.map fun x => line verb [x.repr]

def nodeLines (node : PlanNode) : List Text :=
  [[], line "node" [node.slot, node.kind, node.impl]] ++ wordLine "model" node.model ++ classesLine node.classes ++
    extentLine "crop" node.crop ++ extentLine "letterbox" node.letterbox ++ numberLine "score" node.scoreThreshold ++
    countLine "max_detections" node.maxDetections ++ countLine "instances" node.instances ++
    countLine "queue_delay_us" node.queueDelayUs ++ wordLine "artefact" node.artefact ++
    wordLine "fold_detections" node.foldDetections ++ wordLine "fold_prototypes" node.foldPrototypes ++
    numberLine "fold_score" node.foldScore ++ numberLine "fold_mask" node.foldMask ++ wordLine "when" node.when ++
    wordLine "per" node.per ++ wordLine "scope" node.scope ++ wordLine "group" node.group ++
    (node.cameras.map fun camera => line "camera" [camera]) ++ countLine "min_hits" node.minHits ++
    numberLine "min_height_fraction" node.minHeightFraction ++ numberLine "sync_window_ms" node.syncWindowMs ++
    countLine "max_instants" node.maxInstants ++ wordLine "algorithm" (some node.algorithm) ++
    countLine "regression_reset" node.regressionReset ++
    node.trackerOptions.map fun option => line "tracker_option" [option.1, option.2]

def planLines (plan : ResolvedPlan) : List Text :=
  ["# A RESOLVED chain, written by `shipinfer plan` -- do not hand-edit.".toList,
      line "plan" [intText plan.version, if plan.name = [] then ['-'] else plan.name]] ++
    (plan.settings.toList.flatMap fun settings =>
      settings.items.map fun item => line "setting" [item.1, intText item.2]) ++
    (if plan.policy = [] then []
      else
        line "policy" [plan.policy] ::
          (sortedPairs plan.policyOptions.entries).map fun option => line "policy_option" [option.1, option.2]) ++
    ((sortedPairs plan.labels.entries).map fun label => line "label" [intText label.1, label.2]) ++
    plan.nodes.flatMap nodeLines ++ [[]] ++ (plan.edges.map fun edge => line "edge" [edge.1, edge.2.1, edge.2.2]) ++
    (sortedPairs plan.fields.entries).map fun entry => line "field" [entry.1, unwords entry.2]

/-- `plan_text` -/
def planText (plan : ResolvedPlan) : Text := ['\n'].intercalate (planLines plan) ++ ['\n']

/-! ## Reading -/

inductive Fault
  | secondHeader
  | beforeHeader (verb : Text)
  | noHeader
  | version (version : Int)
  | arguments (form : String) (count : Nat)
  | notAnInteger (text : Text)
  | notAnInt32 (text : Text)
  /-- `ValueError` of `int`, which takes 4300 digits and no more. -/
  | tooManyDigits (text : Text)
  | notFinite (text : Text)
  | notANumber (text : Text)
  | outOfRange (key : String) (text : Text)
  | tooSmall (key : String) (value least : Int)
  | notPositive (key : String)
  | unknownSetting (key : Text)
  | secondSetting (key : Text)
  | settingTooSmall (key : Text) (value minimum : Int)
  | missingSettings (stated : Nat) (absent : List Text)
  | secondPolicy
  | optionBeforePolicy
  | secondPolicyOption (key : Text)
  | secondLabel (index : Int)
  | secondNode (slot : Text)
  | secondField (name : Text)
  | undeclared (field slot : Text)
  | unattached (verb : Text)
  | unknownVerb (verb : Text)
  | emptyLabel
  | secondCamera (camera : Text)
  | secondTrackerOption (key : Text)
  deriving DecidableEq

structure PlanSyntaxError where
  source : String
  number : Option Nat
  fault : Fault
  deriving DecidableEq

def want1 (args : List Text) (form : String) : Except Fault Text :=
  match args with
  | [a] => .ok a
  | _ => .error (.arguments form args.length)

def want2 (args : List Text) (form : String) : Except Fault (Text × Text) :=
  match args with
  | [a, b] => .ok (a, b)
  | _ => .error (.arguments form args.length)

def want3 (args : List Text) (form : String) : Except Fault (Text × Text × Text) :=
  match args with
  | [a, b, c] => .ok (a, b, c)
  | _ => .error (.arguments form args.length)

def intMax : Int := 2 ^ 31 - 1

/-- `_int` -/
def int (text : Text) : Except Fault Int :=
  match readInteger text with
  | none => .error (.notAnInteger text)
  | some value =>
    if 4300 < (readSign text).2.length then .error (.tooManyDigits text)
    else if -intMax - 1 ≤ value ∧ value ≤ intMax then .ok value
    else .error (.notAnInt32 text)

/-! ### Attributes -/

/-- What an attribute makes of the node being built. -/
abbrev Attribute := PlanNode → List Text → Except Fault PlanNode

def extentAttr (key : String) (set : PlanNode → Int × Int → PlanNode) : Attribute := fun node args => do
  let extent ← want2 args (key ++ " <height> <width>")
  let height ← int extent.1
  let width ← int extent.2
  if height ≤ 0 ∨ width ≤ 0 then .error (.notPositive key) else .ok (set node (height, width))

def wordAttr (key : String) (set : PlanNode → Text → PlanNode) : Attribute := fun node args => do
  let value ← want1 args (key ++ " <value>")
  .ok (set node value)

/-- A count of `least` at least. -/
def countAttr (key form : String) (least : Int) (set : PlanNode → Int → PlanNode) : Attribute := fun node args => do
  let text ← want1 args form
  let value ← int text
  if value < least then .error (.tooSmall key value least) else .ok (set node value)

/-- A finite number. -/
def finiteAttr (form : String) (set : PlanNode → Double → PlanNode) : Attribute := fun node args => do
  let text ← want1 args form
  match readDouble text with
  | some (some value) => .ok (set node value)
  | _ => .error (.notFinite text)

/-- A number in a range, which no infinity is in. -/
def rangeAttr (key form : String) (admits : Double → Bool) (set : PlanNode → Double → PlanNode) : Attribute :=
  fun node args => do
    let text ← want1 args form
    match readDouble text with
    | none => .error (.notANumber text)
    | some none => .error (.outOfRange key text)
    | some (some value) => if admits value then .ok (set node value) else .error (.outOfRange key text)

namespace Attr

def score : Attribute := finiteAttr "score <threshold>" fun node value => { node with scoreThreshold := some value }

def instances : Attribute :=
  countAttr "instances" "instances <count>" 1 fun node value => { node with instances := some value }

/-- No window at all is 0. -/
def queueDelay : Attribute :=
  countAttr "queue_delay_us" "queue_delay_us <microseconds>" 0 fun node value => { node with queueDelayUs := some value }

def foldScore : Attribute := finiteAttr "fold_score <threshold>" fun node value => { node with foldScore := some value }

def foldMask : Attribute :=
  rangeAttr "fold_mask" "fold_mask <probability>" (fun x => decide (0 < x.value ∧ x.value < 1)) fun node value =>
    { node with foldMask := some value }

def maxDetections : Attribute :=
  countAttr "max_detections" "max_detections <count>" 1 fun node value => { node with maxDetections := some value }

/-- Labels with commas between them, or `-` for none. -/
def classes : Attribute := fun node args =>
  if args = [] then .error (.arguments "classes <label>[,<label>...]" 0)
  else
    let joined := unwords args
    if joined = ['-'] then .ok { node with classes := some [] }
    else
      let labels := (joined.splitOn ',').map strip
      if [] ∈ labels then .error .emptyLabel else .ok { node with classes := some labels }

def when : Attribute := fun node args =>
  if args = [] then .error (.arguments "when <expression>" 0) else .ok { node with when := some (unwords args) }

def syncWindowMs : Attribute :=
  rangeAttr "sync_window_ms" "sync_window_ms <milliseconds>" (fun x => decide (0 < x.value)) fun node value =>
    { node with syncWindowMs := some value }

def minHits : Attribute := countAttr "min_hits" "min_hits <count>" 1 fun node value => { node with minHits := some value }

def minHeightFraction : Attribute :=
  rangeAttr "min_height_fraction" "min_height_fraction <fraction>" (fun x => decide (0 ≤ x.value ∧ x.value < 1))
    fun node value => { node with minHeightFraction := some value }

def camera : Attribute := fun node args => do
  let id ← want1 args "camera <id>"
  if id ∈ node.cameras then .error (.secondCamera id) else .ok { node with cameras := node.cameras ++ [id] }

def maxInstants : Attribute :=
  countAttr "max_instants" "max_instants <count>" 1 fun node value => { node with maxInstants := some value }

def regressionReset : Attribute :=
  countAttr "regression_reset" "regression_reset <frames>" 0 fun node value => { node with regressionReset := some value }

/-- The options are kept sorted. -/
def trackerOption : Attribute := fun node args => do
  let option ← want2 args "tracker_option <key> <value>"
  if option.1 ∈ node.trackerOptions.map Prod.fst then .error (.secondTrackerOption option.1)
  else .ok { node with trackerOptions := sortedPairs (node.trackerOptions ++ [option]) }

end Attr

/-- `_ATTRIBUTES` -/
def attributes : List (String × Attribute) :=
  [("model", wordAttr "model" fun node value => { node with model := some value }),
    ("classes", Attr.classes),
    ("crop", extentAttr "crop" fun node value => { node with crop := some value }),
    ("letterbox", extentAttr "letterbox" fun node value => { node with letterbox := some value }),
    ("score", Attr.score),
    ("max_detections", Attr.maxDetections),
    ("fold_detections", wordAttr "fold_detections" fun node value => { node with foldDetections := some value }),
    ("fold_prototypes", wordAttr "fold_prototypes" fun node value => { node with foldPrototypes := some value }),
    ("fold_score", Attr.foldScore),
    ("fold_mask", Attr.foldMask),
    ("instances", Attr.instances),
    ("queue_delay_us", Attr.queueDelay),
    ("artefact", wordAttr "artefact" fun node value => { node with artefact := some value }),
    ("when", Attr.when),
    ("per", wordAttr "per" fun node value => { node with per := some value }),
    ("scope", wordAttr "scope" fun node value => { node with scope := some value }),
    ("sync_window_ms", Attr.syncWindowMs),
    ("max_instants", Attr.maxInstants),
    ("group", wordAttr "group" fun node value => { node with group := some value }),
    ("camera", Attr.camera),
    ("min_hits", Attr.minHits),
    ("min_height_fraction", Attr.minHeightFraction),
    ("algorithm", wordAttr "algorithm" fun node value => { node with algorithm := value }),
    ("regression_reset", Attr.regressionReset),
    ("tracker_option", Attr.trackerOption)]

def attributeOf (verb : Text) : Option Attribute :=
  (attributes.find? fun entry => decide (entry.1.toList = verb)).map Prod.snd

/-! ### Lines -/

/-- What has been read so far. -/
structure Draft where
  name : Option Text := none
  version : Int := 0
  labels : Dict Int Text := .empty
  settings : Dict Text Int := .empty
  policy : Text := []
  policyOptions : Dict Text Text := .empty
  nodes : List PlanNode := []
  edges : List (Text × Text × Text) := []
  fields : Dict Text (List Text) := .empty
  deriving DecidableEq

/-- What follows the first two words of a line. -/
def rest (line : Text) : Text := afterWord (afterWord line)

/-- `_header` -/
def header (draft : Draft) (line : Text) : List Text → Except Fault Draft
  | text :: _ :: _ => do
    let version ← int text
    if version ≠ planVersion then .error (.version version)
    else .ok { draft with name := some (rest line), version := version }
  | args => .error (.arguments "plan <version> <name>" args.length)

def readSetting (draft : Draft) (args : List Text) : Except Fault Draft := do
  let (key, text) ← want2 args "setting <key> <value>"
  match settingBounds.find? fun bound => decide (bound.1.toList = key) with
  | none => .error (.unknownSetting key)
  | some (_, minimum) =>
    if key ∈ draft.settings.keys then .error (.secondSetting key)
    else do
      let value ← int text
      if value < minimum then .error (.settingTooSmall key value minimum)
      else .ok { draft with settings := draft.settings.set key value }

def readPolicy (draft : Draft) (args : List Text) : Except Fault Draft := do
  let name ← want1 args "policy <name>"
  if draft.policy ≠ [] then .error .secondPolicy else .ok { draft with policy := name }

def readPolicyOption (draft : Draft) (args : List Text) : Except Fault Draft := do
  let (key, value) ← want2 args "policy_option <key> <value>"
  if draft.policy = [] then .error .optionBeforePolicy
  else if key ∈ draft.policyOptions.keys then .error (.secondPolicyOption key)
  else .ok { draft with policyOptions := draft.policyOptions.set key value }

def readLabel (draft : Draft) (line : Text) : List Text → Except Fault Draft
  | text :: _ :: _ => do
    let index ← int text
    if index ∈ draft.labels.keys then .error (.secondLabel index)
    else .ok { draft with labels := draft.labels.set index (rest line) }
  | args => .error (.arguments "label <id> <name>" args.length)

def readNode (draft : Draft) (args : List Text) : Except Fault Draft := do
  let (slot, kind, impl) ← want3 args "node <slot> <kind> <impl>"
  if slot ∈ draft.nodes.map PlanNode.slot then .error (.secondNode slot)
  else .ok { draft with nodes := draft.nodes ++ [{ slot, kind, impl }] }

def readEdge (draft : Draft) (args : List Text) : Except Fault Draft := do
  let edge ← want3 args "edge <producer> <consumer> <format@location>"
  .ok { draft with edges := draft.edges ++ [edge] }

def readField (draft : Draft) : List Text → Except Fault Draft
  | name :: slot :: slots =>
    if name ∈ draft.fields.keys then .error (.secondField name)
    else .ok { draft with fields := draft.fields.set name (slot :: slots) }
  | args => .error (.arguments "field <name> <slot>..." args.length)

/-- An attribute goes to the last node. -/
def readAttribute (draft : Draft) (verb : Text) (args : List Text) : Except Fault Draft :=
  match attributeOf verb with
  | none => .error (.unknownVerb verb)
  | some apply =>
    match draft.nodes.getLast? with
    | none => .error (.unattached verb)
    | some node => do
      let node ← apply node args
      .ok { draft with nodes := draft.nodes.dropLast ++ [node] }

def readVerb (draft : Draft) (line verb : Text) (args : List Text) : Except Fault Draft :=
  if verb = "plan".toList then
    if draft.name ≠ none then .error .secondHeader else header draft line args
  else if draft.name = none then .error (.beforeHeader verb)
  else if verb = "setting".toList then readSetting draft args
  else if verb = "policy".toList then readPolicy draft args
  else if verb = "policy_option".toList then readPolicyOption draft args
  else if verb = "label".toList then readLabel draft line args
  else if verb = "node".toList then readNode draft args
  else if verb = "edge".toList then readEdge draft args
  else if verb = "field".toList then readField draft args
  else readAttribute draft verb args

def readLine (draft : Draft) (raw : Text) : Except Fault Draft :=
  let line := uncomment raw
  match words line with
  | [] => .ok draft
  | verb :: args => readVerb draft line verb args

def readLines (source : String) : Nat → Draft → List Text → Except PlanSyntaxError Draft
  | _, draft, [] => .ok draft
  | number, draft, raw :: raws =>
    match readLine draft raw with
    | .error fault => .error ⟨source, some number, fault⟩
    | .ok draft => readLines source (number + 1) draft raws

/-- `_settings`: all or none. -/
def readSettings (values : Dict Text Int) : Except Fault (Option PlanSettings) :=
  if values.entries = [] then .ok none
  else
    let absent := settingKeys.filter fun key => decide (key ∉ values.keys)
    if absent ≠ [] then .error (.missingSettings values.size absent)
    else
      let value (key : String) : Int := (values.get? key.toList).getD 0
      .ok <| some
        { workers := value "workers"
          pipelineQueue := value "pipeline_queue"
          instanceQueue := value "instance_queue"
          enqueueBlockTimeoutMs := value "enqueue_block_timeout_ms"
          stageTimeoutMs := value "stage_timeout_ms"
          reassemblyCapacity := value "reassembly_capacity"
          reassemblyTimeoutMs := value "reassembly_timeout_ms"
          reassemblySweepMs := value "reassembly_sweep_ms" }

/-- The first slot that a field names and no node declares. -/
def undeclared (draft : Draft) : Option (Text × Text) :=
  (draft.fields.entries.flatMap fun entry => entry.2.map fun slot => (entry.1, slot)).find? fun named =>
    decide (named.2 ∉ draft.nodes.map PlanNode.slot)

def resolve (draft : Draft) : Except Fault ResolvedPlan :=
  match draft.name with
  | none => .error .noHeader
  | some name =>
    match undeclared draft with
    | some (field, slot) => .error (.undeclared field slot)
    | none => do
      let settings ← readSettings draft.settings
      .ok
        { name := if name = ['-'] then [] else name
          nodes := draft.nodes
          edges := draft.edges
          labels := draft.labels
          fields := draft.fields
          settings
          policy := draft.policy
          policyOptions := draft.policyOptions
          version := draft.version }

/-- `parse_plan` -/
def parsePlan (text : Text) (source : String) : Except PlanSyntaxError ResolvedPlan :=
  match readLines source 1 {} (splitLines text) with
  | .error e => .error e
  | .ok draft =>
    match resolve draft with
    | .error fault => .error ⟨source, none, fault⟩
    | .ok plan => .ok plan

end ShipInfer.Plan
