import ShipInfer.Core.Request
import ShipInfer.Lib.Fold
import ShipInfer.Lib.Kahn
import ShipInfer.Topology.Caps
import Mathlib.Data.List.Dedup

/-!
# The chain loader

`topology/chain.py` from a parsed chain on: each slot comes with its kind and its
element already made, of which only the declarations matter here. The checks are
in the order of `Topology.from_spec`; an error carries what its message names.
-/

namespace ShipInfer.Chain

inductive ElementKind
  | decode
  | detect
  | segment
  | embed
  | recognize
  | track
  | mtmc
  | output
  deriving DecidableEq

inductive Comparison
  | eq
  | ne
  deriving DecidableEq

/-- A `when:` expression. -/
structure Condition where
  field : String
  op : Comparison
  value : String
  deriving DecidableEq

/-- A missing field satisfies neither operator; `str` is the text of a value. -/
def Condition.admits {ν : Type*} (c : Condition) (str : ν → String) (metadata : Dict String ν) : Bool :=
  match metadata.get? c.field with
  | none => false
  | some actual =>
    match c.op with
    | .eq => str actual = c.value
    | .ne => str actual ≠ c.value

structure CameraGroup where
  name : String
  cameras : List String
  deriving DecidableEq

/-- What an element declares before it is opened. -/
structure Element where
  impl : String
  accepts : List Caps := []
  produces : List Caps := []
  requiresModelName : Bool := false
  needsModel : Bool := false
  selectsRows : Bool := false
  readsPerRow : List String := []
  metaKey : String := ""
  filesRawResponse : Bool := false
  /-- `none`: every row. -/
  declaredClasses : Option (List String) := none
  detectionLabels : Option (List String) := none
  cameraGroup : Option CameraGroup := none
  deriving DecidableEq

structure ElementSpec where
  kind : ElementKind
  element : Element
  model : Option String := none
  condition : Option Condition := none
  /-- `none`: the element declared before. -/
  after : Option (List String) := none
  deriving DecidableEq

/-- The slots in the order of the file. -/
structure ChainSpec where
  name : String := ""
  elements : Dict String ElementSpec

structure ElementNode where
  name : String
  kind : ElementKind
  element : Element
  inputs : List String
  outputs : List String
  condition : Option Condition := none
  donor : Option String := none
  deriving DecidableEq

structure Edge where
  producer : String
  consumer : String
  caps : Caps
  deriving DecidableEq

structure Topology where
  name : String
  nodes : List ElementNode
  edges : List Edge

inductive TopologyError
  | noElements (chain : String)
  | noModel (slot impl : String)
  | cycle (path : List String)
  | unknownElement (slot target : String) (known : List String)
  | rootKind (slot : String) (kind : ElementKind)
  | rootInput (slot : String) (accepts : List Caps)
  | rootOutput (slot : String) (produces : List Caps)
  | rootCondition (slot : String) (condition : Condition)
  | noOutput
  | outputGoesOn (slot : String) (outputs : List String)
  | stranded (slots : List String)
  | frameCondition (slot impl : String) (condition : Condition)
  | unknownLabels (slot : String) (unknown emitters known : List String)
  | rawResponse (slot impl key : String) (readers : List String)
  /-- The classes both cover; `none`: every row. -/
  | twoFillers (first second field : String) (shared : Option (List String))
  | unrostered (slots bare : List String)
  | listedTwice (slot camera : String)
  | claimedTwice (camera owner slot : String)
  | halvesDisagree (slot : String) (origins : List String)
  | capsMismatch (producer : String) (produced : List Caps) (consumer : String) (accepted : List Caps)
      (skipped : Option String)
  deriving DecidableEq

def refuse {ε : Type} (c : Prop) [Decidable c] (e : ε) : Except ε Unit := if c then .error e else .ok ()

@[simp] theorem refuse_ok {ε : Type} {c : Prop} [Decidable c] {e : ε} {u : Unit} : refuse c e = .ok u ↔ ¬c := by
  unfold refuse
  split <;> simp [*]

/-- `dict.fromkeys`: the first of each. -/
def fromKeys {α : Type*} [DecidableEq α] (l : List α) : List α := l.reverse.dedup.reverse

@[simp] theorem mem_fromKeys {α : Type*} [DecidableEq α] {l : List α} {a : α} : a ∈ fromKeys l ↔ a ∈ l := by simp [fromKeys]

theorem nodup_fromKeys {α : Type*} [DecidableEq α] (l : List α) : (fromKeys l).Nodup :=
  List.nodup_reverse.mpr (List.nodup_dedup _)

/-! ## The order -/

/-- The default predecessor is the slot before. -/
def resolveFrom (known : List String) : Option String → List (String × ElementSpec) → Except TopologyError (List (String × List String))
  | _, [] => .ok []
  | previous, (slot, declared) :: rest => do
    let resolved := declared.after.getD previous.toList
    resolved.forM fun target => do
      refuse (target = slot) (.cycle [slot])
      refuse (target ∉ known) (.unknownElement slot target known)
    let rest ← resolveFrom known (some slot) rest
    return (slot, fromKeys resolved) :: rest

def resolvePredecessors (spec : ChainSpec) : Except TopologyError (List (String × List String)) :=
  resolveFrom spec.elements.keys none spec.elements.entries

/-- The consumers of a slot, no producer of which occurs twice. -/
def consumers (inputs : List (String × List String)) (producer : String) : List String :=
  (inputs.filter fun p => decide (producer ∈ p.2)).map Prod.fst

def inputsOf (inputs : List (String × List String)) (slot : String) : List String := (inputs.lookup slot).getD []

/-- A depth-first visit: a cycle, or the slots that are done. The number bounds the depth. -/
def visit (consumers : String → List String) : Nat → List String → List String → String → Except (List String) (List String)
  | 0, _, done, _ => .ok done
  | n + 1, path, done, slot => do
    let path := path ++ [slot]
    let done ← (consumers slot).foldlM (fun done consumer =>
      if consumer ∈ path then .error (path.drop (path.idxOf consumer))
      else if consumer ∈ done then .ok done
      else visit consumers n path done consumer) done
    return done ++ [slot]

def findCycle (inputs : List (String × List String)) : List String :=
  let slots := inputs.map Prod.fst
  match slots.foldlM (fun done slot =>
    if slot ∈ done then .ok done else visit (consumers inputs) (slots.length + 1) [] done slot) [] with
  | .error cycle => cycle
  | .ok _ => []

def topologicalOrder (inputs : List (String × List String)) : Except TopologyError (List String) := do
  let slots := inputs.map Prod.fst
  let pending := fun slot => (inputsOf inputs slot).length
  let order := Kahn.loop (consumers inputs) slots.length pending (slots.filter fun slot => decide (pending slot = 0)) []
  refuse (order.length ≠ slots.length) (.cycle (findCycle inputs))
  return order

/-! ## The checks of the nodes -/

namespace ElementNode

def isRoot (n : ElementNode) : Bool := n.inputs.isEmpty

def isSink (n : ElementNode) : Bool := n.outputs.isEmpty

/-- Whether this element sees an item at all. -/
def admits {ν : Type*} (n : ElementNode) (str : ν → String) (metadata : Dict String ν) : Bool :=
  match n.condition with
  | none => true
  | some c => c.admits str metadata

end ElementNode

/-- What is upstream of the frontier, breadth first; the number bounds the rounds. -/
def reaching (producers : String → List String) : Nat → List String → List String → List String
  | 0, _, reached => reached
  | _ + 1, [], reached => reached
  | n + 1, slot :: frontier, reached =>
    let new := (producers slot).filter fun p => decide (p ∉ reached)
    reaching producers n (frontier ++ new) (reached ++ new)

def checkRoot (root : ElementNode) : Except TopologyError Unit := do
  refuse (root.kind ≠ .decode) (.rootKind root.name root.kind)
  refuse (∃ c ∈ root.element.accepts, c.isWildcard = false) (.rootInput root.name root.element.accepts)
  refuse (∃ c ∈ root.element.produces, c.isWildcard = true) (.rootOutput root.name root.element.produces)
  match root.condition with
  | none => .ok ()
  | some condition => .error (.rootCondition root.name condition)

def checkStructure (nodes : List ElementNode) : Except TopologyError Unit := do
  (nodes.filter ElementNode.isRoot).forM checkRoot
  let outputs := nodes.filter fun n => decide (n.kind = .output)
  refuse (outputs = []) .noOutput
  outputs.forM fun emitter => refuse (emitter.isSink = false) (.outputGoesOn emitter.name emitter.outputs)
  let producers := fun slot => ((nodes.find? fun n => decide (n.name = slot)).map ElementNode.inputs).getD []
  let reached := reaching producers nodes.length (outputs.map ElementNode.name) (outputs.map ElementNode.name)
  let stranded := (nodes.filter fun n => decide (n.name ∉ reached)).map ElementNode.name
  refuse (stranded ≠ []) (.stranded stranded)

def checkRowSelection (nodes : List ElementNode) : Except TopologyError Unit := do
  nodes.forM fun n =>
    match n.condition with
    | none => .ok ()
    | some c => refuse (n.element.selectsRows = true ∧ c.field = "class") (.frameCondition n.name n.element.impl c)
  let emitters := nodes.filter fun n => n.element.detectionLabels.isSome
  let known : List String := emitters.flatMap fun n => n.element.detectionLabels.getD []
  if emitters = [] then .ok ()
  else
    nodes.forM fun n =>
      let unknown := (n.element.declaredClasses.getD []).filter fun label => decide (label ∉ known)
      refuse (unknown ≠ []) (.unknownLabels n.name unknown (emitters.map ElementNode.name) known)

/-- Which event field a kind's rows fill. -/
def rowField : ElementKind → Option String
  | .embed => some "embedding"
  | .segment => some "mask_area_px"
  | .track => some "track_id"
  | .mtmc => some "global_id"
  | _ => none

def checkRowIndexedMeta (nodes : List ElementNode) : Except TopologyError Unit :=
  let readers := nodes.filter fun n => decide (n.element.readsPerRow ≠ [])
  let wanted := nodes.flatMap fun n => n.element.readsPerRow
  nodes.forM fun n =>
    refuse (n.element.metaKey ∈ wanted ∧ n.element.filesRawResponse = true)
      (.rawResponse n.name n.element.impl n.element.metaKey (readers.map ElementNode.name))

/-- Every two of a list, in order. -/
def combinations {α : Type*} : List α → List (α × α)
  | [] => []
  | a :: l => l.map (fun b => (a, b)) ++ combinations l

/-- `some none`: both cover every class of one of them. -/
def sharedClasses (first second : Element) : Option (Option (List String)) :=
  match first.declaredClasses, second.declaredClasses with
  | some [], _ | _, some [] => none
  | some left, some right =>
    match left.filter fun label => decide (label ∈ right) with
    | [] => none
    | shared => some (some shared)
  | _, _ => some none

def checkOneFillerPerRow (nodes : List ElementNode) : Except TopologyError Unit :=
  let fields := fromKeys (nodes.filterMap fun n => if n.element.selectsRows then rowField n.kind else none)
  fields.forM fun field =>
    let fillers := nodes.filter fun n => decide (rowField n.kind = some field) && n.element.selectsRows
    (combinations fillers).forM fun p =>
      match sharedClasses p.1.element p.2.element with
      | none => .ok ()
      | some shared => .error (.twoFillers p.1.name p.2.name field shared)

def crossCameraSlots (nodes : List ElementNode) : List ElementNode := nodes.filter fun n => decide (n.kind = .mtmc)

def checkEveryGroupIsRostered (nodes : List ElementNode) : Except TopologyError Unit :=
  let slots := crossCameraSlots nodes
  let bare := slots.filter fun n => ((n.element.cameraGroup.map CameraGroup.cameras).getD []).isEmpty
  refuse (2 ≤ slots.length ∧ bare ≠ []) (.unrostered (slots.map ElementNode.name) (bare.map ElementNode.name))

def claim (slot : String) (claimed : Dict String String) (camera : String) : Except TopologyError (Dict String String) :=
  match claimed.get? camera with
  | none => .ok (claimed.set camera slot)
  | some owner => .error (if owner = slot then .listedTwice slot camera else .claimedTwice camera owner slot)

def checkNoCameraIsClaimedTwice (nodes : List ElementNode) : Except TopologyError Unit := do
  let _ ← (crossCameraSlots nodes).foldlM (fun claimed n =>
    ((n.element.cameraGroup.map CameraGroup.cameras).getD []).foldlM (claim n.name) claimed) Dict.empty
  return ()

/-! ## The caps of the edges -/

/-- A cap that can be handed to an element, and who hands it. -/
structure Arrival where
  origin : String
  caps : Caps
  skipped : Option String := none

def Half.value? {α : Type} : Half α → Option α
  | .any => none
  | .only a => some a

/-- The one value every arriving cap has for a half that an element leaves open. -/
def agreedHalf {α : Type} [DecidableEq α] (slot : String) (arrivals : List Arrival) (half : Caps → Half α) :
    Except TopologyError (Half α) :=
  match (arrivals.filterMap fun a => (half a.caps).value?).dedup with
  | [] => .ok .any
  | [a] => .ok (.only a)
  | _ => .error (.halvesDisagree slot (arrivals.map Arrival.origin))

def fillHalf {α : Type} [DecidableEq α] (slot : String) (arrivals : List Arrival) (half : Caps → Half α) (cap : Caps) :
    Except TopologyError (Half α) :=
  if half cap = .any then agreedHalf slot arrivals half else .ok (half cap)

/-- The caps an element really hands on: what it leaves open is what arrives. -/
def resolveProduced (n : ElementNode) (arrivals : List Arrival) : Except TopologyError (List Caps) :=
  if ∃ cap ∈ n.element.produces, cap.isWildcard = true then do
    let resolved ← n.element.produces.mapM fun cap => do
      let format ← fillHalf n.name arrivals Caps.format cap
      let location ← fillHalf n.name arrivals Caps.location cap
      return ⟨format, location⟩
    return fromKeys resolved
  else .ok n.element.produces

structure Negotiation where
  arrivals : String → List Arrival := fun _ => []
  edges : List Edge := []

def Negotiation.arrive (s : Negotiation) (consumer : String) (a : Arrival) : Negotiation :=
  { s with arrivals := Function.update s.arrivals consumer (s.arrivals consumer ++ [a]) }

/-- A skipped element's predecessor hands straight to its successor. -/
def bypass (n : ElementNode) (consumer : String) (accepted : List Caps) (s : Negotiation) (a : Arrival) :
    Except TopologyError Negotiation :=
  match negotiate [a.caps] accepted with
  | none => .error (.capsMismatch a.origin [a.caps] consumer accepted (some n.name))
  | some _ => .ok (s.arrive consumer { origin := a.origin, caps := a.caps, skipped := some n.name })

def connect (accepts : String → List Caps) (n : ElementNode) (produced : List Caps) (s : Negotiation) (consumer : String) :
    Except TopologyError Negotiation :=
  match negotiate produced (accepts consumer) with
  | none => .error (.capsMismatch n.name produced consumer (accepts consumer) none)
  | some caps =>
    let s := { s.arrive consumer { origin := n.name, caps := caps } with edges := s.edges ++ [⟨n.name, consumer, caps⟩] }
    if n.condition.isNone then .ok s else (s.arrivals n.name).foldlM (bypass n consumer (accepts consumer)) s

def negotiateNode (accepts : String → List Caps) (s : Negotiation) (n : ElementNode) : Except TopologyError Negotiation := do
  let produced ← resolveProduced n (s.arrivals n.name)
  n.outputs.foldlM (connect accepts n produced) s

def acceptsOf (nodes : List ElementNode) (slot : String) : List Caps :=
  ((nodes.find? fun n => decide (n.name = slot)).map fun n => n.element.accepts).getD []

def negotiateEdges (nodes : List ElementNode) : Except TopologyError (List Edge) := do
  let s ← nodes.foldlM (negotiateNode (acceptsOf nodes)) {}
  return s.edges

def edgeCaps (edges : List Edge) (producer consumer : String) : Option Caps :=
  (edges.find? fun e => decide (e.producer = producer ∧ e.consumer = consumer)).map Edge.caps

/-- The first predecessor, in the order of `accepts`, whose edge carries a cap the element prefers. -/
def donorFor (n : ElementNode) (edges : List Edge) : String :=
  let preferred := n.element.accepts.findSome? fun declared =>
    n.inputs.find? fun producer => (edgeCaps edges producer n.name).any fun caps => caps.matchesWith declared
  preferred.getD (n.inputs.headD "")

def ElementNode.withDonor (n : ElementNode) (edges : List Edge) : ElementNode :=
  if n.isRoot then n else { n with donor := some (donorFor n edges) }

section
variable (n : ElementNode) (edges : List Edge)

@[simp] theorem ElementNode.withDonor_name : (n.withDonor edges).name = n.name := by unfold withDonor; split <;> rfl
@[simp] theorem ElementNode.withDonor_element : (n.withDonor edges).element = n.element := by unfold withDonor; split <;> rfl
@[simp] theorem ElementNode.withDonor_inputs : (n.withDonor edges).inputs = n.inputs := by unfold withDonor; split <;> rfl
@[simp] theorem ElementNode.withDonor_outputs : (n.withDonor edges).outputs = n.outputs := by unfold withDonor; split <;> rfl
@[simp] theorem ElementNode.withDonor_condition : (n.withDonor edges).condition = n.condition := by unfold withDonor; split <;> rfl
@[simp] theorem ElementNode.withDonor_kind : (n.withDonor edges).kind = n.kind := by unfold withDonor; split <;> rfl

end

def withDonors (nodes : List ElementNode) (edges : List Edge) : List ElementNode := nodes.map fun n => n.withDonor edges

/-! ## The loader -/

def checkModels (spec : ChainSpec) : Except TopologyError Unit :=
  spec.elements.entries.forM fun p =>
    refuse (p.2.element.requiresModelName = true ∧ p.2.model.getD "" = "") (.noModel p.1 p.2.element.impl)

/-- The nodes in the order of the walk. -/
def ChainSpec.nodes (spec : ChainSpec) (inputs : List (String × List String)) (order : List String) : List ElementNode :=
  order.filterMap fun slot =>
    (spec.elements.get? slot).map fun declared =>
      { name := slot
        kind := declared.kind
        element := declared.element
        inputs := inputsOf inputs slot
        outputs := consumers inputs slot
        condition := declared.condition }

def checkNodes (nodes : List ElementNode) : Except TopologyError Unit := do
  checkStructure nodes
  checkRowSelection nodes
  checkRowIndexedMeta nodes
  checkOneFillerPerRow nodes
  checkEveryGroupIsRostered nodes
  checkNoCameraIsClaimedTwice nodes

def Topology.fromSpec (spec : ChainSpec) : Except TopologyError Topology := do
  refuse (spec.elements.entries = []) (.noElements spec.name)
  checkModels spec
  let inputs ← resolvePredecessors spec
  let order ← topologicalOrder inputs
  let nodes := spec.nodes inputs order
  checkNodes nodes
  let edges ← negotiateEdges nodes
  return { name := spec.name, nodes := withDonors nodes edges, edges := edges }

end ShipInfer.Chain
