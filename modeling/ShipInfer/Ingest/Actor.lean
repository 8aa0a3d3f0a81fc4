import ShipInfer.Lib.Machine

/-!
# A camera actor

The actor loop of `ingest/camera/actor.py` and of `ingest/camera/actor.cpp`: what a
connect or a read does to the actor comes with the event. The planes differ in what
they make of a contract violation: Python retries it, C++ gives the camera up. A
step answers with the states it wrote, in order, since any of them may be read.
-/

namespace ShipInfer.Ingest.Camera

inductive CameraState
  | idle
  | connecting
  | streaming
  | degraded
  | unhealthy
  | exhausted
  | stopped
  deriving DecidableEq

inductive Plane
  | python
  | cpp
  deriving DecidableEq

structure ActorConfig where
  plane : Plane := .python
  emptyReadsBeforeReconnect : Nat := 5
  failuresBeforeUnhealthy : Nat := 3
  redact : String → String := id

inductive Phase
  | unstarted
  /-- At the head of the loop. -/
  | looping
  | connecting
  | reading
  /-- Waiting inside the loop's `try`. -/
  | waiting
  /-- Waiting in the handler of an unexpected failure. -/
  | backingOff
  | finished
  deriving DecidableEq

structure CameraActor where
  state : CameraState := .idle
  phase : Phase := .unstarted
  stop : Bool := false
  fatal : Bool := false
  source : Bool := false
  framesRead : Nat := 0
  framesPublished : Nat := 0
  framesDropped : Nat := 0
  emptyReads : Nat := 0
  connects : Nat := 0
  connectFailures : Nat := 0
  consecutiveFailures : Nat := 0
  consecutiveEmpty : Nat := 0
  lastError : String := ""
  /-- Calls of `stop` that have signalled and not set the state yet. -/
  stoppers : Nat := 0
  deriving DecidableEq

inductive ConnectResult
  | opened
  /-- There is no runtime to decode with. -/
  | unavailable (reason : String)
  /-- A contract violation. -/
  | refused (reason : String)
  | failed (reason : String)
  deriving DecidableEq

inductive SinkReply
  | accepted
  | full
  | closed
  | refused (reason : String)
  | raised (reason : String)
  deriving DecidableEq

inductive ReadResult
  | frame (reply : SinkReply)
  /-- Nothing was read: whether the source is exhausted, or the failure to say so. -/
  | empty (exhausted : Except String Bool)
  | refused (reason : String)
  | failed (reason : String)
  deriving DecidableEq

inductive ActorEvent
  | start
  | loop
  | connect (result : ConnectResult)
  | read (result : ReadResult)
  | woke
  /-- The wait raised. -/
  | raised (reason : String)
  /-- What no handler catches. -/
  | escaped
  | requestStop
  /-- `stop` signals, and sets the state once it has waited for the thread. -/
  | stop
  | stopped
  deriving DecidableEq

namespace CameraActor

abbrev Step := CameraActor × List CameraState

/-- First one, then the other. -/
def andThen (r : Step) (f : CameraActor → Step) : Step := ((f r.1).1, r.2 ++ (f r.1).2)

def setState (s : CameraActor) (state : CameraState) : Step := ({ s with state := state }, [state])

def stateIsFinal (s : CameraActor) : Bool := s.fatal || decide (s.state = .stopped) || decide (s.state = .exhausted)

/-- `STOPPED`, where the state is not final. -/
def settle (s : CameraActor) : Step := if s.stateIsFinal then (s, []) else s.setState .stopped

def teardown (s : CameraActor) : CameraActor := { s with source := false }

/-- What the thread does on its way out. -/
def finish (s : CameraActor) : Step := { s.teardown with phase := .finished }.settle

def recordFailure (cfg : ActorConfig) (s : CameraActor) (reason : String) : Step :=
  { s with
    connectFailures := s.connectFailures + 1
    consecutiveFailures := s.consecutiveFailures + 1
    lastError := cfg.redact reason }.setState
      (if cfg.failuresBeforeUnhealthy ≤ s.consecutiveFailures + 1 then .unhealthy else .degraded)

def markConnecting (s : CameraActor) : Step := if s.state = .unhealthy then (s, []) else s.setState .connecting

/-- Reconnect, after a wait. -/
def retry (cfg : ActorConfig) (s : CameraActor) (reason : String) : Step :=
  andThen (s.recordFailure cfg reason) fun s => ({ s.teardown with phase := .waiting }, [])

/-- The handler of an unexpected failure. -/
def unexpected (cfg : ActorConfig) (s : CameraActor) (reason : String) : Step :=
  andThen (s.recordFailure cfg reason) fun s => ({ s.teardown with phase := .backingOff }, [])

/-- A camera that retrying cannot fix. -/
def refuseFatally (cfg : ActorConfig) (s : CameraActor) (reason : String) : Step :=
  andThen (s.recordFailure cfg reason) fun s =>
    andThen ({ s with fatal := true }.setState .unhealthy) fun s => ({ s.teardown with stop := true, phase := .looping }, [])

def connect (cfg : ActorConfig) (s : CameraActor) : ConnectResult → Step
  | .opened => ({ s with source := true, connects := s.connects + 1, consecutiveEmpty := 0, phase := .reading }, [])
  | .unavailable reason => s.refuseFatally cfg reason
  | .refused reason =>
    match cfg.plane with
    | .python => s.retry cfg reason
    | .cpp => s.refuseFatally cfg reason
  | .failed reason => s.retry cfg reason

def recordFrame (s : CameraActor) : Step := { s with framesRead := s.framesRead + 1 }.setState .streaming

def publish (cfg : ActorConfig) (s : CameraActor) : SinkReply → Step
  | .accepted => ({ s with framesPublished := s.framesPublished + 1, phase := .looping }, [])
  | .full => ({ s with framesDropped := s.framesDropped + 1, phase := .looping }, [])
  | .closed => ({ s with framesDropped := s.framesDropped + 1, stop := true, phase := .looping }, [])
  | .refused reason =>
    match cfg.plane with
    | .python => s.unexpected cfg reason
    | .cpp => andThen (s.refuseFatally cfg reason) finish
  | .raised reason => s.unexpected cfg reason

def onEmptyRead (cfg : ActorConfig) (s : CameraActor) (exhausted : Except String Bool) : Step :=
  let s := { s with emptyReads := s.emptyReads + 1, consecutiveEmpty := s.consecutiveEmpty + 1 }
  match exhausted with
  | .error reason => s.unexpected cfg reason
  | .ok true => andThen (s.setState .exhausted) finish
  | .ok false =>
    if cfg.emptyReadsBeforeReconnect ≤ s.consecutiveEmpty then
      s.retry cfg (toString s.consecutiveEmpty ++ " consecutive empty reads")
    else andThen (s.setState .degraded) fun s => ({ s with phase := .waiting }, [])

def pump (cfg : ActorConfig) (s : CameraActor) : ReadResult → Step
  | .failed reason => s.retry cfg reason
  | .refused reason =>
    match cfg.plane with
    | .python => s.retry cfg reason
    | .cpp => andThen (s.refuseFatally cfg reason) finish
  | .empty exhausted => s.onEmptyRead cfg exhausted
  | .frame reply =>
    andThen ({ s with consecutiveEmpty := 0, consecutiveFailures := 0, lastError := "" }.recordFrame) fun s => s.publish cfg reply

/-- The loop's condition, and what comes before the camera is asked. -/
def loop (s : CameraActor) : Step :=
  if s.stop then s.finish
  else if s.source then ({ s with phase := .reading }, [])
  else andThen s.markConnecting fun s => ({ s with phase := .connecting }, [])

def step (cfg : ActorConfig) (s : CameraActor) : ActorEvent → Step
  | .start =>
    if s.phase = .unstarted then { s with stop := false, phase := .looping }.setState .connecting else (s, [])
  | .loop => if s.phase = .looping then s.loop else (s, [])
  | .connect result => if s.phase = .connecting then s.connect cfg result else (s, [])
  | .read result => if s.phase = .reading then s.pump cfg result else (s, [])
  | .woke => if s.phase = .waiting ∨ s.phase = .backingOff then ({ s with phase := .looping }, []) else (s, [])
  | .raised reason =>
    if s.phase = .waiting then s.unexpected cfg reason
    else if s.phase = .backingOff then s.finish
    else (s, [])
  | .escaped => if s.phase = .unstarted ∨ s.phase = .finished then (s, []) else s.finish
  | .requestStop => ({ s with stop := true }, [])
  | .stop => ({ s with stop := true, stoppers := s.stoppers + 1 }, [])
  | .stopped => if s.stoppers = 0 then (s, []) else { s with stoppers := s.stoppers - 1 }.settle

def run (cfg : ActorConfig) (events : List ActorEvent) : CameraActor × List (List CameraState) :=
  Machine.exec (step cfg) {} events

end CameraActor

end ShipInfer.Ingest.Camera
