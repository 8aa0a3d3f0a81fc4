import ShipInfer.Lib.Machine

/-!
# A shard's servicer

`ShardService` of `runners/service.py` over the runner it builds through its
factory, with `start` and `stop` of `runners/base.py` and the camera set of the
in-process runner. The lifecycle calls hold the service's lock, so each is one
step. What the factory, the chain and the camera threads answer comes with the
call; loading a chain's text gives the name of its topology.
-/

namespace ShipInfer.Runners

/-- What `UpdateTopology` carries. -/
structure TopologyRequest where
  chainYaml : String
  sharedBy : List Nat
  shareRank : List Nat
  deriving DecidableEq

structure Runner where
  topology : String
  /-- What the factory was given. -/
  builtWith : TopologyRequest
  managesCameras : Bool := true
  running : Bool := false
  cameras : List String := []
  deriving DecidableEq

inductive RunnerError
  /-- A `ConfigurationError`: there is no such camera. -/
  | unknownCamera (cameraId : String)
  | duplicateCamera (cameraId : String)
  | notRunning (cameraId : String)
  | noCameraManagement
  | raised (error : String)
  deriving DecidableEq

/-- How a drain goes once the cameras were asked to stop: how many threads it
gave up on, or an exception, and whether the cameras were released before it. -/
inductive DrainAnswer
  | released (abandoned : Nat)
  | raised (error : String) (released : Bool)
  deriving DecidableEq

namespace Runner

def start (r : Runner) (answer : Except String Unit) : Except String Runner :=
  if r.running then .ok r
  else
    match answer with
    | .error e => .error e
    | .ok () => .ok { r with running := true }

/-- It is marked stopped before anything is released. -/
def stop (r : Runner) : Runner := if r.running then { r with running := false, cameras := [] } else r

def addCamera (r : Runner) (cameraId : String) (answer : Except String Unit) : Except RunnerError Runner :=
  if ¬r.managesCameras then .error .noCameraManagement
  else if ¬r.running then .error (.notRunning cameraId)
  else if cameraId ∈ r.cameras then .error (.duplicateCamera cameraId)
  else
    match answer with
    | .error e => .error (.raised e)
    | .ok () => .ok { r with cameras := r.cameras ++ [cameraId] }

/-- Forgetting the camera comes first; its thread may raise on the way out. -/
def removeCamera (r : Runner) (cameraId : String) (answer : Except String Bool) : Runner × Except RunnerError Bool :=
  if ¬r.managesCameras then (r, .error .noCameraManagement)
  else if cameraId ∉ r.cameras then (r, .error (.unknownCamera cameraId))
  else
    ({ r with cameras := r.cameras.filter fun c => decide (c ≠ cameraId) },
      match answer with
      | .error e => .error (.raised e)
      | .ok clean => .ok clean)

def drain (r : Runner) (answer : DrainAnswer) : Runner × Except RunnerError Nat :=
  if ¬r.managesCameras then (r, .error .noCameraManagement)
  else
    match answer with
    | .released abandoned => ({ r with cameras := [] }, .ok abandoned)
    | .raised e released => (if released then { r with cameras := [] } else r, .error (.raised e))

end Runner

inductive ShardState
  | starting
  | ready
  | running
  | draining
  | drained
  | stopped
  deriving DecidableEq

structure ServiceConfig where
  /-- `ChainSpec.from_yaml`: the topology's name, or why the text does not load. -/
  fromYaml : String → Except String String

structure ShardService where
  runner : Option Runner := none
  draining : Bool := false
  drained : Bool := false
  drainDetail : String := ""
  stopped : Bool := false
  chainYaml : String := ""
  sharedBy : List Nat := []
  shareRank : List Nat := []
  deriving DecidableEq

inductive Refusal
  | unloadable (error : String)
  | alreadyRunning (topology : String)
  | notBuilt (error : String)
  | wrongTopology (held sent : String)
  | notStarted (error : String)
  | state (state : ShardState)
  | unreadable (error : String)
  | runner (error : RunnerError)
  | noTopology
  deriving DecidableEq

inductive ServiceCall
  /-- The factory gives a runner of some topology. -/
  | updateTopology (request : TopologyRequest) (build : Except String String) (start : Except String Unit)
  | addCamera (camera : Except String String) (answer : Except String Unit)
  | removeCamera (cameraId : String) (answer : Except String Bool)
  | drain (answer : DrainAnswer)
  | stop (answer : DrainAnswer) (raises : Option String)

inductive ServiceReply
  | accepted
  | refused (why : Refusal)
  | removed (clean : Bool) (why : Option RunnerError)
  | drained (abandoned : Nat) (detail : String)
  | stopped (abandoned : Nat) (detail : String)
  deriving DecidableEq

namespace ShardService

abbrev Step := ShardService × ServiceReply

def cameras (s : ShardService) : List String :=
  match s.runner with
  | none => []
  | some r => r.cameras

def lifecycle (s : ShardService) : Option ShardState :=
  if s.stopped then some .stopped
  else if s.draining then some .draining
  else if s.drained then some .drained
  else none

def state (s : ShardService) : ShardState :=
  match s.lifecycle with
  | some state => state
  | none =>
    match s.runner with
    | none => .starting
    | some r => if ¬r.running then .starting else if r.cameras = [] then .ready else .running

def refusal (s : ShardService) : Option ShardState :=
  s.lifecycle <|> if s.runner.isNone then some .starting else none

/-- The chain named is not the one the runner holds. -/
def misnamed (name held : String) : Prop := name ≠ "" ∧ held ≠ "" ∧ name ≠ held

instance (name held : String) : Decidable (misnamed name held) := inferInstanceAs (Decidable (_ ∧ _))

/-- The second half of `UpdateTopology`, with the runner there is. -/
def install (s : ShardService) (request : TopologyRequest) (name : String) (r : Runner) (builtHere : Bool)
    (start : Except String Unit) : Step :=
  if misnamed name r.topology then ({ s with runner := some r }, .refused (.wrongTopology r.topology name))
  else
    match r.start start with
    | .error e => ({ s with runner := if builtHere then none else some r }, .refused (.notStarted e))
    | .ok r' =>
      ({ runner := some r'
         draining := false
         drained := false
         drainDetail := ""
         stopped := false
         chainYaml := request.chainYaml
         sharedBy := request.sharedBy
         shareRank := request.shareRank }, .accepted)

def updateTopology (cfg : ServiceConfig) (s : ShardService) (request : TopologyRequest) (build : Except String String)
    (start : Except String Unit) : Step :=
  match cfg.fromYaml request.chainYaml with
  | .error e => (s, .refused (.unloadable e))
  | .ok name =>
    match s.runner with
    | some r => if r.running then (s, .refused (.alreadyRunning r.topology)) else s.install request name r false start
    | none =>
      match build with
      | .error e => (s, .refused (.notBuilt e))
      | .ok topology => s.install request name { topology := topology, builtWith := request } true start

def addCamera (s : ShardService) (camera : Except String String) (answer : Except String Unit) : Step :=
  match camera with
  | .error e => (s, .refused (.unreadable e))
  | .ok cameraId =>
    match s.refusal, s.runner with
    | some state, _ => (s, .refused (.state state))
    | none, none => (s, .refused .noTopology)
    | none, some r =>
      match r.addCamera cameraId answer with
      | .error e => (s, .refused (.runner e))
      | .ok r' => ({ s with runner := some r' }, .accepted)

def removeCamera (s : ShardService) (cameraId : String) (answer : Except String Bool) : Step :=
  match s.runner with
  | none => (s, .refused .noTopology)
  | some r =>
    let q := r.removeCamera cameraId answer
    ({ s with runner := some q.1 },
      match q.2 with
      | .ok clean => .removed clean none
      | .error (.unknownCamera c) => .refused (.runner (.unknownCamera c))
      | .error .noCameraManagement => .refused (.runner .noCameraManagement)
      | .error e => .removed false (some e))

/-- `_drain`: the service after it, how many threads it abandoned, and why it failed. -/
def drainRunner (s : ShardService) (answer : DrainAnswer) : ShardService × Nat × String :=
  match s.runner with
  | none => (s, 0, "")
  | some r =>
    let q := r.drain answer
    ({ s with runner := some q.1 },
      match q.2 with
      | .ok abandoned => (abandoned, "")
      | .error (.raised e) => (0, e)
      | .error _ => (0, ""))

def drain (s : ShardService) (answer : DrainAnswer) : Step :=
  let q := s.drainRunner answer
  ({ q.1 with draining := false, drainDetail := q.2.2, drained := q.2.2 = "" }, .drained q.2.1 q.2.2)

def stop (s : ShardService) (answer : DrainAnswer) (raises : Option String) : Step :=
  if s.stopped then (s, .stopped 0 "already stopped")
  else
    let q := s.drainRunner answer
    let detail :=
      match raises with
      | none => q.2.2
      | some e => if q.2.2 = "" then e else q.2.2 ++ "; " ++ e
    ({ q.1 with runner := q.1.runner.map Runner.stop, draining := false, drained := false, stopped := true },
      .stopped q.2.1 detail)

def step (cfg : ServiceConfig) (s : ShardService) : ServiceCall → Step
  | .updateTopology request build start => s.updateTopology cfg request build start
  | .addCamera camera answer => s.addCamera camera answer
  | .removeCamera cameraId answer => s.removeCamera cameraId answer
  | .drain answer => s.drain answer
  | .stop answer raises => s.stop answer raises

/-- The service at its start, and the calls it served in order. -/
def run (cfg : ServiceConfig) (calls : List ServiceCall) : ShardService × List ServiceReply :=
  Machine.exec (step cfg) {} calls

end ShardService

end ShipInfer.Runners
