import Mathlib.Data.List.Sort
import ShipInfer.Lib.Counter
import ShipInfer.Lib.Fold
import ShipInfer.Runtime.Staging

/-!
# Splitting a fleet over processes

`plan_shards`, `ShardPlan.sharing_for` and `ShardPlan.rank_for` of
`scheduling/sharding.py`, and what a shard's process makes of them:
`DeviceManager.shared_by` and `share_rank` of `runtime/device.py` before
`InstanceGroup.expand`. Loads are numbers of any kind, floats too: no law of
arithmetic is used.
-/

namespace ShipInfer.Scheduling

open ShipInfer.Runtime

/-! ## The plan -/

/-- A list of camera ids counts each as 1.0. -/
inductive Cameras (K : Type)
  | loads (offered : Dict String K)
  | ids (names : List String)

def Cameras.names {K : Type} : Cameras K → List String
  | .loads offered => offered.keys
  | .ids names => names

structure Shard (K G : Type) where
  index : Nat
  cameras : List String
  gpus : List G
  offeredFps : K

structure ShardPlan (K G : Type) where
  shards : List (Shard K G)
  shardsPerGpu : Counter G

/-- Why a plan is refused, each a `ConfigurationError`. -/
inductive PlanError
  | noShards (shards : Int)
  | noGpus
  | tooManyShards (shards : Int) (cameras : Nat)
  deriving DecidableEq

/-- `<` of two pairs in Python: the second parts decide where the first are equal. -/
def pairLt {A B : Type} [BEq A] [LT A] [DecidableLT A] [LT B] [DecidableLT B] (a b : A × B) : Bool :=
  if a.1 == b.1 then decide (a.2 < b.2) else decide (a.1 < b.1)

section
variable {K G : Type} [DecidableEq G]

/-- `ShardPlan.sharing_for` -/
def ShardPlan.sharingFor (plan : ShardPlan K G) (shard : Shard K G) : List Nat :=
  shard.gpus.map fun gpu => (plan.shardsPerGpu.get? gpu).getD 1

/-- The shards that own a device, in their order. -/
def ShardPlan.owners (plan : ShardPlan K G) (gpu : G) : List (Shard K G) :=
  plan.shards.filter fun s => decide (gpu ∈ s.gpus)

/-- `ShardPlan.rank_for` -/
def ShardPlan.rankFor (plan : ShardPlan K G) (shard : Shard K G) : List Nat :=
  shard.gpus.map fun gpu =>
    let owners := (plan.owners gpu).map Shard.index
    if shard.index ∈ owners then owners.idxOf shard.index else 0

/-- The devices of shard `index`: one each in turn where there are as many shards as
devices, else a run of them. -/
def window (ordinals : List G) (shards index : Nat) : List G :=
  if ordinals.length ≤ shards then (ordinals[index % ordinals.length]?).toList
  else
    let per := ordinals.length / shards
    let extra := ordinals.length % shards
    let start := index * per + min index extra
    (ordinals.drop start).take (per + if index < extra then 1 else 0)

/-- A shard's devices join the count of who shares what. -/
def handOut (sharing : Counter G) (mine : List G) : Counter G := mine.foldl (fun s gpu => s.add gpu 1) sharing

variable [Zero K] [One K] [Add K] [Neg K] [Div K] [NatCast K] [LT K] [DecidableLT K] [BEq K]

def Cameras.load : Cameras K → Dict String K
  | .loads offered => offered
  | .ids names => Dict.empty.update (names.map fun name => (name, 1))

/-- A shard's share of its devices: one alone on a device has 1 of it, one of two 1/2. -/
def capacityOf (sharing : Counter G) (mine : List G) : K :=
  mine.foldl (fun total gpu => total + 1 / (((sharing.get? gpu).getD 0 : Nat) : K)) 0

structure Buckets (K : Type) where
  buckets : List (List String)
  weights : List K

/-- The shard with the least load for its share of its devices, the first of them. -/
def target (capacity weights : List K) : Nat :=
  (List.range weights.length).tail.foldl
    (fun best i => if pairLt (weights.getD i 0 / capacity.getD i 0, i) (weights.getD best 0 / capacity.getD best 0, best)
      then i else best) 0

def place (capacity : List K) (b : Buckets K) (camera : String × K) : Buckets K :=
  let i := target capacity b.weights
  { buckets := b.buckets.modify i (· ++ [camera.1])
    weights := b.weights.modify i (· + camera.2) }

/-- The cameras by load, the largest first, and then by name. -/
def byLoad (load : Dict String K) : List (String × K) :=
  load.entries.insertionSort fun a b => pairLt (-b.2, b.1) (-a.2, a.1) = false

/-- `plan_shards` -/
def planShards (cameras : Cameras K) (shards : Int) (gpus : List G) : Except PlanError (ShardPlan K G) :=
  let load := cameras.load
  if shards < 1 then .error (.noShards shards)
  else if gpus = [] then .error .noGpus
  else if load.size ≠ 0 ∧ (load.size : Int) < shards then .error (.tooManyShards shards load.size)
  else
    let n := shards.toNat
    let assigned := (List.range n).map (window gpus n)
    let sharing := assigned.foldl handOut .empty
    let capacity : List K := assigned.map (capacityOf sharing)
    let filled := (byLoad load).foldl (place capacity) { buckets := List.replicate n [], weights := List.replicate n 0 }
    .ok
      { shards := (List.range n).map fun i =>
          { index := i
            cameras := (filled.buckets.getD i []).insertionSort (· ≤ ·)
            gpus := assigned.getD i []
            offeredFps := filled.weights.getD i 0 }
        shardsPerGpu := sharing }

end

/-! ## The process of a shard -/

/-- How a process numbers the devices it was given, each by a number of its own. -/
structure Numbering (G : Type) where
  visible : List G → List Nat
  length_visible : ∀ gpus, (visible gpus).length = gpus.length
  nodup_visible : ∀ {gpus}, gpus.Nodup → (visible gpus).Nodup

/-- The number a process sees one of its devices under. -/
def Numbering.ordinal {G : Type} [DecidableEq G] (numbering : Numbering G) (gpus : List G) (gpu : G) : Nat :=
  (numbering.visible gpus).getD (gpus.idxOf gpu) 0

/-- What `CUDA_VISIBLE_DEVICES` does: the devices become 0, 1, 2, … -/
def Numbering.logical {G : Type} : Numbering G where
  visible gpus := List.range gpus.length
  length_visible _ := List.length_range
  nodup_visible _ := List.nodup_range

/-- A process that sees all devices keeps their ordinals. -/
def Numbering.physical : Numbering Nat where
  visible gpus := gpus
  length_visible _ := rfl
  nodup_visible h := h

/-- Why a process refuses a group of instances. -/
inductive LoadError
  | misaligned (given visible : Nat)
  | placement (e : PlacementError)
  deriving DecidableEq

/-- `DeviceManager.shared_by` and `share_rank`: what was sent, by visible device. -/
def byDevice (visible sent : List Nat) : Except LoadError (Dict Nat Nat) :=
  if sent = [] then .ok .empty
  else if sent.length ≠ visible.length then .error (.misaligned sent.length visible.length)
  else .ok (Dict.empty.update (visible.zip sent))

/-- The copies of a group that a shard loads: `InstanceGroup.expand` in its process. -/
def ShardPlan.loads {K G : Type} [DecidableEq G] (plan : ShardPlan K G) (numbering : Numbering G) (group : InstanceGroup)
    (shard : Shard K G) : Except LoadError (List Device) := do
  let visible := numbering.visible shard.gpus
  let sharedBy ← byDevice visible (plan.sharingFor shard)
  let shareRank ← byDevice visible (plan.rankFor shard)
  (group.expand visible sharedBy.get? shareRank.get?).mapError LoadError.placement

end ShipInfer.Scheduling
