import Mathlib.Data.Finset.Insert
import Mathlib.Data.Prod.Lex
import ShipInfer.Lib.Machine
import ShipInfer.Lib.SortedMap

/-!
# Cross-camera identities

`GlobalIdAssigner` of `pipeline/mtmc/identity.cpp`: tracks of single cameras,
clustered per instant, come to share global ids. Five maps move together: who
owns a track, who belongs to an id, and the feature, the run of hits and the
last sighting of every track. An `int64` owner of -1 is `none` here. What the
code does with numbers in an embedding is left abstract (`Cosine`).
-/

namespace ShipInfer.Identity

open Std (TreeMap)

/-- A track of one camera. -/
structure TrackKey (Camera : Type) where
  cameraId : Camera
  trackId : Int
  deriving DecidableEq

/-- By camera, then by track id. -/
instance {Camera : Type} [LinearOrder Camera] : LinearOrder (TrackKey Camera) :=
  LinearOrder.lift' (fun k => toLex (k.cameraId, k.trackId)) fun a b h => by
    cases a; cases b
    simpa using h

structure IdentityObservation (Camera α : Type) where
  key : TrackKey Camera
  embedding : List α

/-- The arithmetic on embeddings: whether the sum of squares is above zero, a
value divided by the norm of its embedding, the score 0.0, the similarity of a
feature to others (the best one or the mean), and `>` on scores. -/
structure Cosine (α σ : Type) where
  positive : List α → Bool
  divide : List α → α → α
  zero : σ
  score : Bool → List α → List (List α) → σ
  above : σ → σ → Bool

/-- What the class throws. -/
inductive Refusal (Camera : Type)
  | maxAge (given : Int)
  | capacity (given : Int)
  | maxTracks (given : Int)
  | labelCount (labels observations : Nat)
  | noEmbedding (key : TrackKey Camera)
  | width (key : TrackKey Camera) (carried built : Nat)
  | zeroEmbedding (key : TrackKey Camera)
  | noDirection
  | compared (mine other : Nat)
  | outOfRange (key : TrackKey Camera)
  | emptyIdentity (globalId : Nat)
  | listedTwice (globalId : Nat) (key : TrackKey Camera)
  | sameCamera (globalId : Nat) (cameraId : Camera)
  | notOwner (key : TrackKey Camera) (globalId : Nat)
  | notListed (key : TrackKey Camera) (globalId : Nat)
  | noRecord (key : TrackKey Camera)

/-- The checked options. -/
structure Options where
  maxAge : Nat
  capacity : Nat
  maxTracks : Nat
  validateEveryStep : Bool
  maxAge_pos : 1 ≤ maxAge
  capacity_pos : 1 ≤ capacity
  maxTracks_pos : 1 ≤ maxTracks

/-- The constructor's checks. -/
def Options.new {Camera : Type} (maxAge capacity maxTracks : Int) (validateEveryStep : Bool) :
    Except (Refusal Camera) Options :=
  if ha : maxAge < 1 then .error (.maxAge maxAge)
  else if hc : capacity < 1 then .error (.capacity capacity)
  else if ht : maxTracks < 1 then .error (.maxTracks maxTracks)
  else .ok ⟨maxAge.toNat, capacity.toNat, maxTracks.toNat, validateEveryStep, by omega, by omega, by omega⟩

/-- The maps and counters of the class. -/
structure Assigner (Camera α : Type) [LinearOrder Camera] where
  counter : Nat := 0
  step : Nat := 0
  width : Nat := 0
  members : TreeMap Nat (List (TrackKey Camera)) := ∅
  owner : TreeMap (TrackKey Camera) Nat := ∅
  features : TreeMap (TrackKey Camera) (List α) := ∅
  hits : TreeMap (TrackKey Camera) Nat := ∅
  lastSeen : TreeMap (TrackKey Camera) Nat := ∅

namespace Assigner

variable {Camera α σ : Type} [LinearOrder Camera]

/-- What a call answers: its result, or what it threw and the state it left. -/
abbrev Attempt (Camera α τ : Type) [LinearOrder Camera] := Except (Refusal Camera × Assigner Camera α) τ

def reset (s : Assigner Camera α) : Assigner Camera α :=
  { s with members := ∅, owner := ∅, features := ∅, hits := ∅, lastSeen := ∅ }

def memberList (s : Assigner Camera α) (globalId : Nat) : List (TrackKey Camera) := s.members[globalId]?.getD []

def ownerOf (s : Assigner Camera α) (key : TrackKey Camera) : Option Nat := s.owner[key]?

def hitsOf (s : Assigner Camera α) (key : TrackKey Camera) : Nat := s.hits[key]?.getD 0

/-! ## Embeddings -/

/-- `check_embeddings` on one observation: the width all have so far. -/
def checkEmbedding (ar : Cosine α σ) (width : Nat) (o : IdentityObservation Camera α) : Except (Refusal Camera) Nat :=
  if o.embedding.length = 0 then .error (.noEmbedding o.key)
  else
    let width := if width = 0 then o.embedding.length else width
    if o.embedding.length ≠ width then .error (.width o.key o.embedding.length width)
    else if !ar.positive o.embedding then .error (.zeroEmbedding o.key)
    else .ok width

/-- `check_embeddings`: the width to store once none was refused. -/
def checkEmbeddings (ar : Cosine α σ) : Nat → List (IdentityObservation Camera α) → Except (Refusal Camera) Nat
  | width, [] => .ok width
  | width, o :: os =>
    match checkEmbedding ar width o with
    | .error r => .error r
    | .ok width => checkEmbeddings ar width os

def normalised (ar : Cosine α σ) (embedding : List α) : Except (Refusal Camera) (List α) :=
  if !ar.positive embedding then .error .noDirection else .ok (embedding.map (ar.divide embedding))

/-- `observe` on one observation. -/
def observeOne (ar : Cosine α σ) (s : Assigner Camera α) (o : IdentityObservation Camera α) :
    Attempt Camera α (Assigner Camera α) :=
  match normalised ar o.embedding with
  | .error r => .error (r, s)
  | .ok feature =>
    let consecutive :=
      match s.lastSeen[o.key]? with
      | none => false
      | some seen => decide (seen + 1 = s.step)
    .ok { s with
      features := s.features.insert o.key feature
      hits := s.hits.insert o.key (if consecutive then s.hitsOf o.key + 1 else 1)
      lastSeen := s.lastSeen.insert o.key s.step }

def observe (ar : Cosine α σ) (s : Assigner Camera α) (observations : List (IdentityObservation Camera α)) :
    Attempt Camera α (Assigner Camera α) :=
  observations.foldlM (observeOne ar) s

def similarity (ar : Cosine α σ) (feature : List α) (others : List (List α)) (useMax : Bool) :
    Except (Refusal Camera) σ :=
  if others.isEmpty then .ok ar.zero
  else
    match others.find? fun other => decide (other.length ≠ feature.length) with
    | some other => .error (.compared feature.length other.length)
    | none => .ok (ar.score useMax feature others)

/-! ## Groups -/

/-- One label: appended to its group, which is new at its first appearance. -/
def addLabel (acc : TreeMap Int Nat × List (List Nat)) (p : Int × Nat) : TreeMap Int Nat × List (List Nat) :=
  match acc.1[p.1]? with
  | none => (acc.1.insert p.1 acc.2.length, acc.2 ++ [[p.2]])
  | some at_ => (acc.1, acc.2.modify at_ (· ++ [p.2]))

/-- `ordered_groups`: largest first, ties by first appearance. -/
def orderedGroups (labels : List Int) : List (List Nat) :=
  (labels.zipIdx.foldl addLabel (∅, [])).2.mergeSort fun left right => decide (right.length ≤ left.length)

/-! ## The two maps of owners and members -/

def issue (s : Assigner Camera α) : Nat × Assigner Camera α := (s.counter, { s with counter := s.counter + 1 })

def adopt (s : Assigner Camera α) (key : TrackKey Camera) (globalId : Nat) : Assigner Camera α :=
  { s with
    owner := s.owner.insert key globalId
    members := s.members.insert globalId (s.memberList globalId ++ [key]) }

/-- An identity is dropped as soon as it empties. -/
def detach (s : Assigner Camera α) (key : TrackKey Camera) (globalId : Nat) : Assigner Camera α :=
  match s.members[globalId]? with
  | none => s
  | some keys =>
    let keys := keys.filter fun k => decide (k ≠ key)
    if keys.isEmpty then { s with members := s.members.erase globalId }
    else { s with members := s.members.insert globalId keys }

def move (s : Assigner Camera α) (key : TrackKey Camera) (source destination : Nat) : Assigner Camera α :=
  if source = destination then s else (s.detach key source).adopt key destination

def place (s : Assigner Camera α) (key : TrackKey Camera) (target : Nat) (owner : Option Nat) : Assigner Camera α :=
  match owner with
  | none => s.adopt key target
  | some owner => s.move key owner target

def forget (s : Assigner Camera α) (key : TrackKey Camera) : Assigner Camera α :=
  let s :=
    match s.owner[key]? with
    | none => s
    | some globalId => { s with owner := s.owner.erase key }.detach key globalId
  { s with features := s.features.erase key, hits := s.hits.erase key, lastSeen := s.lastSeen.erase key }

/-- The first member of this camera that is not to be ignored. -/
def memberFromCamera (s : Assigner Camera α) (globalId : Nat) (cameraId : Camera) (ignoring : List (TrackKey Camera)) :
    Option (TrackKey Camera) :=
  (s.memberList globalId).find? fun k => decide (k.cameraId = cameraId ∧ k ∉ ignoring)

/-! ## Assigning a group -/

/-- How many of the keys each id owns, the excluded ids apart. -/
def countOwners (s : Assigner Camera α) (exclude : Finset Nat) (counts : TreeMap Nat Nat) (key : TrackKey Camera) :
    TreeMap Nat Nat :=
  match s.ownerOf key with
  | none => counts
  | some owner => if owner ∈ exclude then counts else counts.insert owner (counts[owner]?.getD 0 + 1)

/-- The ids owning the most keys of the cluster, in order. -/
def candidateIds (s : Assigner Camera α) (keys : List (TrackKey Camera)) (exclude : Finset Nat) : List Nat :=
  let counts : List (Nat × Nat) := (keys.foldl (s.countOwners exclude) ∅).toList
  let best : Nat := counts.foldl (fun best p => max best p.2) 0
  if best = 0 then [] else (counts.filter fun p => decide (p.2 = best)).map Prod.fst

def age (s : Assigner Camera α) (globalId : Nat) : Nat :=
  (s.memberList globalId).foldl (fun age member => max age (s.hitsOf member)) 0

/-- The candidate confirmed the longest, the lowest id among equals; `front` when it is the only one. -/
def selectByOldest (s : Assigner Camera α) (front : Nat) (candidates : List Nat) : Nat :=
  if candidates.length = 1 then front
  else (candidates.foldl (fun (best : Nat × Int) globalId =>
    if best.2 < s.age globalId then (globalId, (s.age globalId : Int)) else best) (front, -1)).1

/-- A new cluster's tracks: one identity, and one more for every further track of
a camera it already has. -/
def adoptFresh (globalId : Nat) : Assigner Camera α → List Camera → List (TrackKey Camera) → Assigner Camera α
  | s, _, [] => s
  | s, claimed, key :: keys =>
    if key.cameraId ∈ claimed then adoptFresh globalId (s.issue.2.adopt key s.issue.1) claimed keys
    else adoptFresh globalId (s.adopt key globalId) (claimed ++ [key.cameraId]) keys

/-- The features on record of these keys. -/
def featuresOf (s : Assigner Camera α) (keys : List (TrackKey Camera)) : List (List α) :=
  keys.filterMap fun key => s.features[key]?

def resolveBetweenIdentities (ar : Cosine α σ) (s : Assigner Camera α) (key : TrackKey Camera) (owner target : Nat)
    (overlap : List (List α)) : Attempt Camera α (Assigner Camera α) :=
  let rest := s.featuresOf ((s.memberList owner).filter fun member => decide (member ≠ key))
  match s.features[key]? with
  | none => .error (.outOfRange key, s)
  | some mine =>
    match similarity ar mine overlap true, similarity ar mine rest true with
    | .error r, _ => .error (r, s)
    | _, .error r => .error (r, s)
    | .ok there, .ok here => if ar.above there here then .ok (s.move key owner target) else .ok s

/-- Two live tracks of one camera contest the identity. -/
def contest (ar : Cosine α σ) (target : Nat) (overlap : List (List α)) (s : Assigner Camera α)
    (displaced : List (TrackKey Camera)) (key incumbent : TrackKey Camera) :
    Attempt Camera α (Assigner Camera α × List (TrackKey Camera)) :=
  match s.features[incumbent]?, s.features[key]? with
  | none, _ => .error (.outOfRange incumbent, s)
  | some held, challenger =>
    match similarity ar held overlap false, challenger with
    | .error r, _ => .error (r, s)
    | .ok _, none => .error (.outOfRange key, s)
    | .ok contest, some mine =>
      match similarity ar mine overlap false with
      | .error r => .error (r, s)
      | .ok challenge =>
        if ar.above challenge contest then .ok (s.place key target (s.ownerOf key), displaced ++ [incumbent])
        else if s.ownerOf key = none then .ok (s.issue.2.adopt key s.issue.1, displaced)
        else .ok (s, displaced)

/-- One key of the cluster that its identity does not have yet. -/
def settle (ar : Cosine α σ) (target : Nat) (overlap : List (List α))
    (acc : Assigner Camera α × List (TrackKey Camera)) (key : TrackKey Camera) :
    Attempt Camera α (Assigner Camera α × List (TrackKey Camera)) :=
  let s := acc.1
  match s.memberFromCamera target key.cameraId acc.2 with
  | none =>
    match s.ownerOf key with
    | none => .ok (s.adopt key target, acc.2)
    | some owner =>
      if owner ≠ target then (s.resolveBetweenIdentities ar key owner target overlap).map fun s => (s, acc.2)
      else .ok acc
  | some incumbent =>
    let stale :=
      match s.lastSeen[incumbent]? with
      | none => true
      | some seen => decide (seen < s.step)
    if stale then .ok ((s.forget incumbent).place key target (s.ownerOf key), acc.2)
    else contest ar target overlap s acc.2 key incumbent

/-- The deferred pass: a loser still in the identity gets one of its own. -/
def moveOut (target : Nat) (s : Assigner Camera α) (key : TrackKey Camera) : Assigner Camera α :=
  if s.ownerOf key = some target then s.issue.2.move key target s.issue.1 else s

def assignGroup (ar : Cosine α σ) (acc : Assigner Camera α × Finset Nat) (keys : List (TrackKey Camera)) :
    Attempt Camera α (Assigner Camera α × Finset Nat) :=
  let s := acc.1
  match s.candidateIds keys acc.2 with
  | [] =>
    let fresh := keys.filter fun key => decide (s.ownerOf key = none)
    if fresh.isEmpty then .ok acc
    else .ok (adoptFresh s.issue.1 s.issue.2 [] fresh, insert s.issue.1 acc.2)
  | front :: rest =>
    let target := s.selectByOldest front (front :: rest)
    let overlap := s.featuresOf (keys.filter fun key => decide (key ∈ s.memberList target))
    let nonOverlap := keys.filter fun key => decide (key ∉ s.memberList target)
    match nonOverlap.foldlM (settle ar target overlap) (s, []) with
    | .error e => .error e
    | .ok (s, displaced) => .ok (displaced.foldl (moveOut target) s, insert target acc.2)

/-! ## Eviction -/

/-- By the last sighting, then by the key. -/
def seenBefore (s : Assigner Camera α) (a b : TrackKey Camera) : Bool :=
  let sa := s.lastSeen[a]?.getD 0
  let sb := s.lastSeen[b]?.getD 0
  if sa ≠ sb then decide (sa < sb) else decide (a < b)

/-- An identity's recency is that of its most recently seen member. -/
def recency (s : Assigner Camera α) (globalId : Nat) : Int :=
  (s.memberList globalId).foldl (fun (seen : Int) (member : TrackKey Camera) =>
    match s.lastSeen[member]? with
    | none => seen
    | some last => max seen last) (-1)

/-- By recency, then the higher id first. -/
def usedBefore (s : Assigner Camera α) (a b : Nat) : Bool :=
  if s.recency a ≠ s.recency b then decide (s.recency a < s.recency b) else decide (b < a)

def forgetAll (s : Assigner Camera α) (keys : List (TrackKey Camera)) : Assigner Camera α := keys.foldl forget s

def evictStale (opts : Options) (s : Assigner Camera α) : Assigner Camera α :=
  s.forgetAll ((s.lastSeen.toList.filter fun p => decide ((p.2 : Int) < s.step - opts.maxAge)).map Prod.fst)

def evictTracks (opts : Options) (s : Assigner Camera α) : Assigner Camera α :=
  if opts.maxTracks < s.owner.size then
    let oldest := (s.lastSeen.toList.map Prod.fst).mergeSort fun a b => !s.seenBefore b a
    s.forgetAll (oldest.take (s.owner.size - opts.maxTracks))
  else s

/-- Every member of one identity is forgotten. -/
def forgetMembers (s : Assigner Camera α) (globalId : Nat) : Assigner Camera α := s.forgetAll (s.memberList globalId)

def evictIdentities (opts : Options) (s : Assigner Camera α) : Assigner Camera α :=
  if opts.capacity < s.members.size then
    let byRecency := (s.members.toList.map Prod.fst).mergeSort fun a b => !s.usedBefore b a
    (byRecency.take (s.members.size - opts.capacity)).foldl forgetMembers s
  else s

def evict (opts : Options) (s : Assigner Camera α) : Assigner Camera α :=
  evictIdentities opts (evictTracks opts (evictStale opts s))

/-! ## The call -/

/-- The checks of `validate` on the members of one identity. -/
def validateMembers (s : Assigner Camera α) (globalId : Nat) : List Camera → List (TrackKey Camera) →
    Except (Refusal Camera) Unit
  | _, [] => .ok ()
  | cameras, key :: keys =>
    if key ∈ keys then .error (.listedTwice globalId key)
    else if key.cameraId ∈ cameras then .error (.sameCamera globalId key.cameraId)
    else if s.ownerOf key ≠ some globalId then .error (.notOwner key globalId)
    else s.validateMembers globalId (cameras ++ [key.cameraId]) keys

def validateIdentity (s : Assigner Camera α) (p : Nat × List (TrackKey Camera)) : Except (Refusal Camera) Unit :=
  if p.2.isEmpty then .error (.emptyIdentity p.1) else s.validateMembers p.1 [] p.2

def validateTrack (s : Assigner Camera α) (p : TrackKey Camera × Nat) : Except (Refusal Camera) Unit :=
  if p.1 ∉ s.memberList p.2 then .error (.notListed p.1 p.2)
  else if s.features[p.1]? = none ∨ s.lastSeen[p.1]? = none then .error (.noRecord p.1)
  else .ok ()

/-- The first refusal of a list of checks. -/
def checkAll {β : Type} (check : β → Except (Refusal Camera) Unit) : List β → Except (Refusal Camera) Unit
  | [] => .ok ()
  | b :: bs =>
    match check b with
    | .error r => .error r
    | .ok () => checkAll check bs

def validate (s : Assigner Camera α) : Except (Refusal Camera) Unit :=
  match checkAll s.validateIdentity s.members.toList with
  | .error r => .error r
  | .ok () => checkAll s.validateTrack s.owner.toList

/-- The keys of a group's observations. -/
def keysAt (observations : List (IdentityObservation Camera α)) (indices : List Nat) : List (TrackKey Camera) :=
  indices.filterMap fun index => observations[index]?.map IdentityObservation.key

/-- The id an observation is answered with; one without gets its own. -/
def answer (acc : Assigner Camera α × TreeMap (TrackKey Camera) Nat) (o : IdentityObservation Camera α) :
    Assigner Camera α × TreeMap (TrackKey Camera) Nat :=
  match acc.1.ownerOf o.key with
  | none => (acc.1.issue.2.adopt o.key acc.1.issue.1, acc.2.insert o.key acc.1.issue.1)
  | some owner => (acc.1, acc.2.insert o.key owner)

/-- The groups of an instant, largest first. -/
def assignGroups (ar : Cosine α σ) (s : Assigner Camera α) (observations : List (IdentityObservation Camera α))
    (labels : List Int) : Attempt Camera α (Assigner Camera α × Finset Nat) :=
  ((orderedGroups labels).map (keysAt observations)).foldlM (assignGroup ar) (s, ∅)

/-- `assign`: the state it leaves, and its answer or what it threw. -/
def assign (ar : Cosine α σ) (opts : Options) (s : Assigner Camera α)
    (observations : List (IdentityObservation Camera α)) (labels : List Int) :
    Assigner Camera α × Except (Refusal Camera) (TreeMap (TrackKey Camera) Nat) :=
  if labels.length ≠ observations.length then (s, .error (.labelCount labels.length observations.length))
  else
    match checkEmbeddings ar s.width observations with
    | .error r => (s, .error r)
    | .ok width =>
      match observe ar { s with width := width, step := s.step + 1 } observations with
      | .error (r, s) => (s, .error r)
      | .ok s =>
        match assignGroups ar s observations labels with
        | .error (r, s) => (s, .error r)
        | .ok (s, _) =>
          let acc := observations.foldl answer (s, ∅)
          let s := evict opts acc.1
          if opts.validateEveryStep then
            match s.validate with
            | .error r => (s, .error r)
            | .ok () => (s, .ok acc.2)
          else (s, .ok acc.2)

end Assigner

/-- The observations of one instant: every track at most once. -/
structure Instant (Camera α : Type) where
  observations : List (IdentityObservation Camera α)
  labels : List Int
  distinct : (observations.map IdentityObservation.key).Nodup

inductive Input (Camera α : Type)
  | assign (instant : Instant Camera α)
  | reset

variable {Camera α σ : Type} [LinearOrder Camera]

def Assigner.call (ar : Cosine α σ) (opts : Options) (s : Assigner Camera α) :
    Input Camera α → Assigner Camera α × Except (Refusal Camera) (TreeMap (TrackKey Camera) Nat)
  | .assign instant => s.assign ar opts instant.observations instant.labels
  | .reset => (s.reset, .ok ∅)

/-- The assigner under any sequence of calls. -/
def assigner (ar : Cosine α σ) (opts : Options) :
    Machine (Assigner Camera α) (Input Camera α × Except (Refusal Camera) (TreeMap (TrackKey Camera) Nat)) :=
  .ofFn (fun s => s = {}) (Assigner.call ar opts)

end ShipInfer.Identity
