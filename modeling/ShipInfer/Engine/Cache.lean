import ShipInfer.Batching.Stacking
import ShipInfer.Lib.Layout
import ShipInfer.Lib.Machine
import ShipInfer.Lib.Texts

/-!
# The response cache

`cache_key`, `freeze_outputs` and `key_for` of `engine/cache/base.py`, the cache of
`engine/cache/lru.py`, and `_infer`, `_response_from` and `_store_when_done` of
`engine/model.py` over them: a started model, whose requests end in any order. The digest
is a parameter.
-/

namespace ShipInfer.Engine.Cache

open Batching (Model AdmitError)

/-! ## The key -/

/-- `dtype.value` -/
def dtypeValue : DataType → String
  | .bool => "BOOL"
  | .uint8 => "UINT8"
  | .int8 => "INT8"
  | .int32 => "INT32"
  | .int64 => "INT64"
  | .fp16 => "FP16"
  | .fp32 => "FP32"
  | .fp64 => "FP64"

def dimsText : List Nat → List Char
  | [] => []
  | [d] => (toString d).toList
  | d :: e :: dims => (toString d).toList ++ ',' :: ' ' :: dimsText (e :: dims)

/-- `repr` of a shape. -/
def shapeText (shape : List Nat) : String :=
  String.ofList ('(' :: (dimsText shape ++ if shape.length = 1 then [',', ')'] else [')']))

/-- What goes into the digest before the bytes of an input. -/
def heading (name : String) (dtype : DataType) (shape : List Nat) : String :=
  name ++ dtypeValue dtype ++ shapeText shape

inductive KeyError
  /-- `to_bytes` of a version that four bytes do not hold. -/
  | overflow
  /-- The `RuntimeError` of `numpy()`. -/
  | notHostVisible
  deriving DecidableEq

def versionBytes (version : Int) : Except KeyError (List UInt8) :=
  if 0 ≤ version ∧ version < 2 ^ 32 then .ok (leBytes 4 version.toNat) else .error .overflow

/-- The inputs in the order of their names. -/
def sortedInputs (inputs : Dict String Tensor) : List (String × Tensor) :=
  inputs.entries.mergeSort fun p q => decide (p.1 ≤ q.1)

def entryBytes (p : String × Tensor) : Except KeyError (List UInt8) :=
  match p.2.numpy with
  | .ok data => .ok (encode (heading p.1 p.2.dtype p.2.shape) ++ data)
  | .error _ => .error .notHostVisible

/-- What `cache_key` feeds the digest. -/
def keyStream (model : String) (version : Int) (inputs : Dict String Tensor) : Except KeyError (List UInt8) := do
  let version ← versionBytes version
  let parts ← (sortedInputs inputs).mapM entryBytes
  .ok (encode model ++ version ++ parts.flatten)

/-- `key_for`, for a digest: a `RuntimeError` makes the request uncacheable. -/
def keyFor {κ : Type} (digest : List UInt8 → κ) (model : String) (version : Int) (inputs : Dict String Tensor) :
    Except KeyError (Option κ) :=
  match keyStream model version inputs with
  | .ok stream => .ok (some (digest stream))
  | .error .notHostVisible => .ok none
  | .error .overflow => .error .overflow

/-! ## The cache -/

/-- A copy of a host tensor. -/
def sealedCopy (t : Tensor) : Except TensorError Tensor :=
  match t.handle with
  | some device => .error (.notHostVisible device)
  | none => .ok t

def freezeOutputs (outputs : Dict String Tensor) : Except TensorError (Dict String Tensor) :=
  outputs.mapValuesM sealedCopy

def payloadBytes (payload : Dict String Tensor) : Nat :=
  (payload.values.map fun t => elementCount t.shape * t.dtype.itemsize).sum

structure LruResponseCache (κ : Type) where
  maxEntries : Int := 4096
  maxBytes : Int := 256 * 1024 * 1024
  /-- The least recently used first. -/
  entries : Dict κ (Dict String Tensor) := .empty
  sizes : Dict κ Nat := .empty
  bytes : Int := 0
  hits : Nat := 0
  misses : Nat := 0
  evictions : Nat := 0

namespace LruResponseCache

variable {κ : Type} [DecidableEq κ]

/-- `move_to_end` with the value. -/
def touch (entries : Dict κ (Dict String Tensor)) (key : κ) (payload : Dict String Tensor) :
    Dict κ (Dict String Tensor) :=
  (entries.erase key).set key payload

def get (c : LruResponseCache κ) (key : κ) : LruResponseCache κ × Option (Dict String Tensor) :=
  match c.entries.get? key with
  | none => ({ c with misses := c.misses + 1 }, none)
  | some entry => ({ c with entries := touch c.entries key entry, hits := c.hits + 1 }, some entry)

/-- The eviction loop of `put`, for at most `n` rounds. -/
def evict : Nat → LruResponseCache κ → LruResponseCache κ
  | 0, c => c
  | n + 1, c =>
    match c.entries.keys with
    | [] => c
    | victim :: _ =>
      if c.maxEntries < c.entries.size ∨ c.maxBytes < c.bytes then
        evict n
          { c with
            entries := c.entries.erase victim
            bytes := c.bytes - ((c.sizes.get? victim).getD 0 : Nat)
            sizes := c.sizes.erase victim
            evictions := c.evictions + 1 }
      else c

def put (c : LruResponseCache κ) (key : κ) (outputs : Dict String Tensor) :
    Except TensorError (LruResponseCache κ) := do
  let payload ← freezeOutputs outputs
  let nbytes := payloadBytes payload
  if c.maxBytes < nbytes then .ok c
  else
    let bytes := if c.entries.contains key then c.bytes - ((c.sizes.get? key).getD 0 : Nat) else c.bytes
    let c :=
      { c with
        entries := touch c.entries key payload
        sizes := c.sizes.set key nbytes
        bytes := bytes + nbytes }
    .ok (c.evict c.entries.size)

def clear (c : LruResponseCache κ) : LruResponseCache κ := { c with entries := .empty, sizes := .empty, bytes := 0 }

end LruResponseCache

/-! ## A model with its cache -/

/-- A model as its configuration declares it: no two tensors of one name. -/
structure CachedModel where
  name : String
  version : Int
  inputSpecs : List TensorSpec
  outputSpecs : List TensorSpec
  maxBatchSize : Nat
  unique : (inputSpecs.map TensorSpec.name).Nodup

/-- The model, started, as far as the cache is not asked. -/
def CachedModel.model (m : CachedModel) : Model where
  name := m.name
  version := m.version
  started := true
  inputSpecs := m.inputSpecs
  outputSpecs := m.outputSpecs
  maxBatchSize := m.maxBatchSize
  cached := fun _ => none

/-- An admitted request that has not been answered from the cache. -/
structure Flight (κ : Type) where
  inputs : Dict String Tensor
  /-- Where `_store` puts the outputs. -/
  key : Option κ
  done : Bool := false

structure Serving (κ : Type) where
  cache : LruResponseCache κ
  flights : List (Flight κ) := []

inductive Event
  | infer (request : InferenceRequest) (now : Int)
  /-- The `i`-th request ends: it was executed, or it failed or was cancelled. -/
  | finish (i : Nat) (executed : Bool)
  | clear

inductive Answer
  | refused (error : AdmitError)
  | raised (error : KeyError)
  | hit (response : InferenceResponse)
  | queued (item : WorkItem)
  | quiet

/-- The outputs of a model as a function of its inputs. -/
abbrev Outputs := (String → Option Tensor) → Dict String Tensor

namespace Serving

variable {κ : Type} [DecidableEq κ]

/-- A request goes on to the queues. -/
def fly (s : Serving κ) (inputs : Dict String Tensor) (key : Option κ) : Serving κ :=
  { s with flights := s.flights ++ [{ inputs := inputs, key := key }] }

/-- `_infer` -/
def infer (digest : List UInt8 → κ) (m : CachedModel) (s : Serving κ) (request : InferenceRequest) (now : Int) :
    Serving κ × Answer :=
  match m.model.admitRequest request now with
  | .error e => (s, .refused e)
  | .ok admitted =>
    match keyFor digest m.name m.version admitted.item.request.inputs with
    | .error e => (s, .raised e)
    | .ok none =>
      (s.fly admitted.item.request.inputs none, .queued admitted.item)
    | .ok (some key) =>
      let r := s.cache.get key
      let s := { s with cache := r.1 }
      match r.2 with
      | some cached => (s, .hit (m.model.responseFrom admitted.item.request cached now))
      | none => (s.fly admitted.item.request.inputs (some key), .queued admitted.item)

/-- `_store`: only outputs that can be read are put. -/
def store (s : Serving κ) (key : κ) (outputs : Dict String Tensor) : Serving κ :=
  match s.cache.put key outputs with
  | .ok cache => { s with cache := cache }
  | .error _ => s

def finish (execute : Outputs) (s : Serving κ) (i : Nat) (executed : Bool) : Serving κ :=
  match s.flights[i]? with
  | none => s
  | some flight =>
    if flight.done then s
    else
      let s := { s with flights := s.flights.set i { flight with done := true } }
      match flight.key with
      | some key => if executed then s.store key (execute flight.inputs.get?) else s
      | none => s

def step (digest : List UInt8 → κ) (m : CachedModel) (execute : Outputs) (s : Serving κ) :
    Event → Serving κ × Answer
  | .infer request now => s.infer digest m request now
  | .finish i executed => (s.finish execute i executed, .quiet)
  | .clear => ({ s with cache := s.cache.clear }, .quiet)

def run (digest : List UInt8 → κ) (m : CachedModel) (execute : Outputs) (maxEntries maxBytes : Int)
    (events : List Event) : Serving κ :=
  (Machine.exec (step digest m execute) { cache := { maxEntries := maxEntries, maxBytes := maxBytes } } events).1

end Serving

/-! ## What it should do, and when -/

/-- After any run the key of an admitted request is computed, and a hit has the outputs
that executing the request would give. -/
def Right (m : CachedModel) : Prop :=
  ∀ (κ : Type) [DecidableEq κ] (digest : List UInt8 → κ), Function.Injective digest →
    ∀ (execute : Outputs) (maxEntries maxBytes : Int) (events : List Event) (request : InferenceRequest) (now : Int),
      let answer := ((Serving.run digest m execute maxEntries maxBytes events).infer digest m request now).2
      (∀ e, answer ≠ .raised e) ∧
        ∀ response, answer = .hit response → response.outputs = execute request.inputs.get?

/-- Four bytes hold the version. -/
def CachedModel.VersionFits (m : CachedModel) : Prop := 0 ≤ m.version ∧ m.version < 2 ^ 32

/-- `s` may be left out where `t` comes in its place: it is optional, and so is each input whose
name is between theirs. -/
def Skips (specs : List TensorSpec) (s t : TensorSpec) : Prop :=
  s.optional = true ∧ ∀ r ∈ specs, s.name < r.name → r.name < t.name → r.optional = true

/-- Two optional inputs `n` of `UINT8` and `nU` of `INT8` that take tensors of one shape. -/
def Twins (specs : List TensorSpec) : Prop :=
  ∃ s ∈ specs, ∃ t ∈ specs, Skips specs s t ∧ t.optional = true ∧ s.dtype = .uint8 ∧ t.dtype = .int8 ∧
    t.name = s.name ++ "U" ∧ ∃ shape, s.matches shape = true ∧ t.matches shape = true

/-- An input whose name begins with the digest's text of a tensor of another, `s`, which may be
left out, or be taken for an input that may. -/
def Nested (specs : List TensorSpec) : Prop :=
  ∃ s ∈ specs, ∃ t ∈ specs, (Skips specs s t ∨ ∃ r ∈ specs, Skips specs r s ∧ s.name = r.name ++ "U") ∧
    ∃ shape : List Nat, s.matches shape.tail = true ∧ (heading s.name s.dtype shape).toList <+: t.name.toList

end ShipInfer.Engine.Cache
