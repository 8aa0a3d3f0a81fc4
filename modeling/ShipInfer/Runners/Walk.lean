import ShipInfer.Topology.Chain

/-!
# Walking one frame through the chain

`ChainWalk` of `runners/walk.py`. What an element answers, and whether the
deadline has passed where the walk asks, come from the environment. Values in
the metadata and in a scatter-back stand for objects: they are equal when they
are the same object.
-/

namespace ShipInfer.Runners

open Chain

/-- A value in the metadata: a scatter-back by detection row, or anything else. -/
inductive MetaValue (ρ ν : Type)
  | rowIndexed (rows : Dict Nat ρ)
  | other (value : ν)

structure ChainItem (π ρ ν : Type) where
  context : RequestContext
  caps : Caps
  payload : Option π
  metadata : Dict String (MetaValue ρ ν)

inductive ErrorClass
  | queueFull
  | ringClosed
  | wireRefused
  | requestTimeout
  | requestCancelled
  | inference
  | shipInfer
  /-- None of ours. -/
  | foreign
  deriving DecidableEq

inductive WalkError
  | raised (cls : ErrorClass) (message : String)
  | collision (node key : String) (row : Nat) (claimants : List String)
  | noDonor (node : String) (donor : Option String) (offered : List (String × Option Caps)) (wanted : Caps)
  deriving DecidableEq

def WalkError.cls : WalkError → ErrorClass
  | .raised cls _ => cls
  | .collision .. | .noDonor .. => .inference

/-- How a walk ends before its last element. -/
inductive WalkEnd
  | expired (place : String)
  | blamed (error : WalkError) (context : String)
  deriving DecidableEq

/-- What surrounds a walk. -/
structure WalkEnv (π ρ ν : Type) where
  str : MetaValue ρ ν → String
  process : ElementNode → ChainItem π ρ ν → Except (ErrorClass × String) (Option (ChainItem π ρ ν))
  /-- The deadline has passed before the walk; before this element. -/
  lateAtStart : Bool := false
  late : String → Bool := fun _ => false

structure WalkState (π ρ ν : Type) where
  produced : Dict String (Option (ChainItem π ρ ν)) := .empty
  last : ChainItem π ρ ν

namespace ChainWalk

variable {π ρ ν : Type}

/-! ## Fan-in -/

/-- What the predecessors that produced something hand to a node. -/
def contributors (node : ElementNode) (produced : Dict String (Option (ChainItem π ρ ν))) : List (String × ChainItem π ρ ν) :=
  node.inputs.filterMap fun name => (produced.get? name).join.map fun item => (name, item)

/-- The branches that claimed the row. -/
def claimants (key : String) (row : Nat) (contributors : List (String × ChainItem π ρ ν)) : List String :=
  contributors.filterMap fun p =>
    match p.2.metadata.get? key with
    | some (.rowIndexed rows) => if rows.contains row then some p.1 else none
    | _ => none

/-- A donor under the cap the loader negotiated for the missing donor's edge. -/
def substituteDonor (edges : List Edge) (node : ElementNode) (first : ChainItem π ρ ν)
    (contributors : List (String × ChainItem π ρ ν)) : Except WalkError (ChainItem π ρ ν) :=
  match node.donor.bind fun donor => edgeCaps edges donor node.name with
  | none => .ok first
  | some wanted =>
    match contributors.find? fun p => decide (edgeCaps edges p.1 node.name = some wanted) with
    | some p => .ok p.2
    | none =>
      .error (.noDonor node.name node.donor (contributors.map fun p => (p.1, edgeCaps edges p.1 node.name)) wanted)

def donorOf (edges : List Edge) (node : ElementNode) (produced : Dict String (Option (ChainItem π ρ ν)))
    (first : ChainItem π ρ ν) (contributors : List (String × ChainItem π ρ ν)) : Except WalkError (ChainItem π ρ ν) :=
  match node.donor.bind fun donor => (produced.get? donor).join with
  | some item => .ok item
  | none => substituteDonor edges node first contributors

variable [DecidableEq ρ]

/-- The union of two scatter-backs; one merged into itself stays as it is. -/
def mergeRows (node : ElementNode) (contributors : List (String × ChainItem π ρ ν)) (key : String) (held rows : Dict Nat ρ) :
    Except WalkError (Dict Nat ρ) :=
  rows.entries.foldlM (fun union p =>
    match union.get? p.1 with
    | none => .ok (union.set p.1 p.2)
    | some row =>
      if row = p.2 then .ok union else .error (.collision node.name key p.1 (claimants key p.1 contributors))) held

/-- First writer wins, except that two scatter-backs union. -/
def mergeEntry (node : ElementNode) (contributors : List (String × ChainItem π ρ ν)) (merged : Dict String (MetaValue ρ ν))
    (p : String × MetaValue ρ ν) : Except WalkError (Dict String (MetaValue ρ ν)) :=
  match merged.get? p.1, p.2 with
  | none, value => .ok (merged.set p.1 value)
  | some (.rowIndexed held), .rowIndexed rows => do
    let union ← mergeRows node contributors p.1 held rows
    return merged.set p.1 (.rowIndexed union)
  | some _, _ => .ok merged

def mergeMeta (node : ElementNode) (contributors : List (String × ChainItem π ρ ν)) : Except WalkError (Dict String (MetaValue ρ ν)) :=
  contributors.foldlM (fun merged p => p.2.metadata.entries.foldlM (mergeEntry node contributors) merged) .empty

/-- What a node receives: its donor's payload, with every branch's metadata. -/
def inbound (edges : List Edge) (node : ElementNode) (produced : Dict String (Option (ChainItem π ρ ν))) :
    Except WalkError (Option (ChainItem π ρ ν)) :=
  match contributors node produced with
  | [] => .ok none
  | p :: rest => do
    let donor ← donorOf edges node produced p.2 (p :: rest)
    if rest = [] then return some donor
    else do
      let merged ← mergeMeta node (p :: rest)
      return some { donor with metadata := merged }

/-! ## The walk -/

/-- A root receives the item itself. -/
def receives (edges : List Edge) (item : ChainItem π ρ ν) (s : WalkState π ρ ν) (node : ElementNode) :
    Except WalkError (Option (ChainItem π ρ ν)) :=
  if node.isRoot then .ok (some item) else inbound edges node s.produced

/-- One turn of the loop. -/
def visit (edges : List Edge) (env : WalkEnv π ρ ν) (item : ChainItem π ρ ν) (s : WalkState π ρ ν) (node : ElementNode) :
    Except WalkEnd (WalkState π ρ ν) :=
  match receives edges item s node with
  | .error e => .error (.blamed e ("fan-in " ++ node.name ++ " could not be merged"))
  | .ok none => .ok s
  | .ok (some incoming) =>
    if node.admits env.str incoming.metadata = false then .ok { s with produced := s.produced.set node.name (some incoming) }
    else if node.element.needsModel && env.late node.name then .error (.expired ("before element " ++ node.name))
    else
      match env.process node incoming with
      | .error (cls, message) => .error (.blamed (.raised cls message) ("element " ++ node.name ++ " failed"))
      | .ok result => .ok { produced := s.produced.set node.name result, last := result.getD s.last }

/-- The item as the last element left it, or why it did not get there. -/
def run (t : Topology) (env : WalkEnv π ρ ν) (item : ChainItem π ρ ν) : Except WalkEnd (ChainItem π ρ ν) := do
  refuse (env.lateAtStart = true) (.expired "before the walk")
  let s ← t.nodes.foldlM (visit t.edges env item) { last := item }
  return s.last

end ChainWalk

end ShipInfer.Runners
