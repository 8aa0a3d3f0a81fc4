import ShipInfer.Lib.Machine

/-!
# The ring ingress

`RingIngress` of `engine/spill/remote_instance.py`: one thread that takes slots
from its lanes' request rings, hands the requests to their models and answers
into the result rings, while the models' own threads settle futures. A taken
slot is told by the number of its taking. What the rings and the models answer
comes with each event; an item whose dispatch was refused or raised is in no
queue, so nothing settles it.
-/

namespace ShipInfer.Spill

/-- `_RESPONSE_HEAD.size` -/
def responseHeadSize : Nat := 352

/-- `_MAX_NAME` -/
def maxName : Nat := 64

structure IngressConfig where
  /-- Bytes of a slot of each lane's result ring. -/
  resultSlots : List Nat
  resultPatience : Int := 30
  retryBackoff : Int := 5

def IngressConfig.lanes (cfg : IngressConfig) : List Nat := List.range cfg.resultSlots.length

/-- What the ingress knows of a slot it took. -/
structure Claim where
  ticket : Nat
  lane : Nat
  requestId : Nat
  modelName : String
  deriving DecidableEq

structure IngressReply where
  claim : Claim
  error : Option String
  deadline : Int
  deriving DecidableEq

structure Deferred where
  claim : Claim
  cap : Int
  deriving DecidableEq

/-- `encode_failure` writes: there is room for a head, and the name fits its field. -/
def encodeFailure (slotBytes : Nat) (c : Claim) : Prop :=
  responseHeadSize ≤ slotBytes ∧ c.modelName.utf8ByteSize < maxName

instance (slotBytes : Nat) (c : Claim) : Decidable (encodeFailure slotBytes c) := inferInstanceAs (Decidable (_ ∧ _))

inductive DispatchAnswer
  | accepted
  /-- Every local queue refused. -/
  | refused
  | raised (error : String)
  deriving DecidableEq

/-- How serving a slot goes, up to its dispatch. -/
inductive Served
  /-- The ring was detached under the thread: reading the slot raises. -/
  | detached
  | undecodable (requestId : Nat) (error : String)
  | notAdmitted (requestId : Nat) (modelName error : String)
  /-- The future is settled on admission. -/
  | cached (requestId : Nat) (modelName : String)
  | admitted (requestId : Nat) (modelName : String) (answer : DispatchAnswer)

inductive ClaimAnswer
  | closed
  | full
  /-- A slot is claimed, but its ring is detached before it can be written. -/
  | detached
  | slot
  deriving DecidableEq

inductive SweepAnswer
  | closed
  | idle
  | taken (served : Served)

inductive IngressPhase
  /-- Before the loop looks at `_stopping`. -/
  | top
  | draining (left : Nat)
  | retrying (left : Nat) (started : Int)
  | sweeping (lanes blocked : List Nat) (opened : Nat)
  /-- The `finally` block. -/
  | closing
  | closingDeferred
  | exited
  deriving DecidableEq

structure RingIngress where
  tickets : Nat := 0
  replies : List IngressReply := []
  deferred : List Deferred := []
  /-- Accepted by a model, future not settled. -/
  inFlight : List Claim := []
  retryAt : Nat → Int := fun _ => 0
  served : Nat := 0
  failed : Nat := 0
  dropped : Nat := 0
  stopping : Bool := false
  phase : IngressPhase := .top

inductive IngressEvent
  | stop
  /-- A model settles the `i`-th future in flight. -/
  | settles (i : Nat) (error : Option String) (now : Int)
  | enter
  /-- One turn of `_drain_replies`; whether a response fits its slot. -/
  | drain (answer : ClaimAnswer) (responseFits : Bool) (now : Int)
  | retry (answer : DispatchAnswer) (now : Int)
  | sweep (answer : SweepAnswer) (now : Int)
  /-- Stamping the load raises. -/
  | stampRaises
  | close

structure IngressOutput where
  taken : List Nat := []
  released : List Nat := []
  published : List Nat := []
  dropped : List Nat := []
  deriving DecidableEq

namespace RingIngress

abbrev Step := RingIngress × IngressOutput

def reply (cfg : IngressConfig) (s : RingIngress) (c : Claim) (error : Option String) (now : Int) : RingIngress :=
  { s with replies := s.replies ++ [⟨c, error, now + cfg.resultPatience⟩] }

def failureReply (cfg : IngressConfig) (s : RingIngress) (c : Claim) (error : String) (now : Int) : RingIngress :=
  { s.reply cfg c (some error) now with failed := s.failed + 1 }

def dispatch (cfg : IngressConfig) (s : RingIngress) (c : Claim) (cap : Int) (now : Int) : DispatchAnswer → RingIngress
  | .accepted => { s with inFlight := s.inFlight ++ [c] }
  | .raised error => s.failureReply cfg c error now
  | .refused =>
    if cap ≤ now then s.failureReply cfg c "queue full" now
    else
      { s with
        deferred := s.deferred ++ [⟨c, cap⟩]
        retryAt := fun lane => if lane = c.lane then now + cfg.retryBackoff else s.retryAt lane }

def serve (cfg : IngressConfig) (s : RingIngress) (lane : Nat) (now : Int) : Served → RingIngress
  | .detached => { s with phase := .closing }
  | .undecodable requestId error => s.failureReply cfg ⟨s.tickets, lane, requestId, "?"⟩ error now
  | .notAdmitted requestId modelName error => s.failureReply cfg ⟨s.tickets, lane, requestId, modelName⟩ error now
  | .cached requestId modelName => s.reply cfg ⟨s.tickets, lane, requestId, modelName⟩ none now
  | .admitted requestId modelName answer =>
    s.dispatch cfg ⟨s.tickets, lane, requestId, modelName⟩ (now + cfg.resultPatience) now answer

/-- The oldest reply is answered or given up, and its slot released. -/
def land (s : RingIngress) (c : Claim) (next : RingIngress) : Step :=
  ({ next with replies := s.replies.tail }, { released := [c.ticket], published := [c.ticket] })

def drop (s : RingIngress) (c : Claim) (next : RingIngress) : Step :=
  ({ next with replies := s.replies.tail, dropped := s.dropped + 1 }, { released := [c.ticket], dropped := [c.ticket] })

/-- An exception ends the loop with the reply in hand. -/
def lose (s : RingIngress) : Step := ({ s with replies := s.replies.tail, phase := .closing }, {})

def drainReply (cfg : IngressConfig) (s : RingIngress) (r : IngressReply) (left : Nat) (responseFits : Bool) (now : Int) :
    ClaimAnswer → Step
  | .closed => s.drop r.claim { s with phase := .draining left }
  | .full =>
    if r.deadline ≤ now then s.drop r.claim { s with phase := .draining left }
    else ({ s with replies := s.replies.tail ++ [r], phase := .draining left }, {})
  | .detached => s.lose
  | .slot =>
    if r.error = none ∧ responseFits then s.land r.claim { s with served := s.served + 1, phase := .draining left }
    else if encodeFailure (cfg.resultSlots.getD r.claim.lane 0) r.claim then
      s.land r.claim { s with failed := if r.error = none then s.failed + 1 else s.failed, phase := .draining left }
    else s.lose

def retryDeferred (cfg : IngressConfig) (s : RingIngress) (d : Deferred) (left : Nat) (started now : Int)
    (answer : DispatchAnswer) : RingIngress :=
  if started < s.retryAt d.claim.lane then
    { s with deferred := s.deferred.tail ++ [d], phase := .retrying left started }
  else dispatch cfg { s with deferred := s.deferred.tail, phase := .retrying left started } d.claim d.cap now answer

def sweepLane (cfg : IngressConfig) (s : RingIngress) (lane : Nat) (rest blocked : List Nat) (opened : Nat) (now : Int) :
    SweepAnswer → Step
  | .closed => ({ s with phase := .sweeping rest blocked opened }, {})
  | .idle => ({ s with phase := .sweeping rest blocked (opened + 1) }, {})
  | .taken served =>
    if lane ∈ blocked then ({ s with phase := .sweeping rest blocked (opened + 1) }, {})
    else
      ({ serve cfg { s with phase := .sweeping rest blocked (opened + 1) } lane now served with tickets := s.tickets + 1 },
        { taken := [s.tickets] })

/-- What the `finally` block does next. -/
def close (s : RingIngress) : Step :=
  match s.phase with
  | .closing =>
    match s.replies with
    | [] => ({ s with phase := .closingDeferred }, {})
    | r :: _ => s.drop r.claim s
  | .closingDeferred =>
    match s.deferred with
    | [] => ({ s with phase := .exited }, {})
    | d :: rest =>
      ({ s with deferred := rest, dropped := s.dropped + 1 },
        { released := [d.claim.ticket], dropped := [d.claim.ticket] })
  | _ => (s, {})

def step (cfg : IngressConfig) (s : RingIngress) : IngressEvent → Step
  | .stop => ({ s with stopping := true }, {})
  | .settles i error now =>
    match s.inFlight[i]? with
    | none => (s, {})
    | some c => ({ s.reply cfg c error now with inFlight := s.inFlight.eraseIdx i }, {})
  | .enter =>
    match s.phase with
    | .top => ({ s with phase := if s.stopping then .closing else .draining s.replies.length }, {})
    | _ => (s, {})
  | .drain answer responseFits now =>
    match s.phase with
    | .draining 0 => ({ s with phase := .retrying s.deferred.length now }, {})
    | .draining (left + 1) =>
      match s.replies with
      | [] => ({ s with phase := .retrying s.deferred.length now }, {})
      | r :: _ => s.drainReply cfg r left responseFits now answer
    | _ => (s, {})
  | .retry answer now =>
    match s.phase with
    | .retrying 0 _ => ({ s with phase := .sweeping cfg.lanes (s.deferred.map fun d => d.claim.lane) 0 }, {})
    | .retrying (left + 1) started =>
      match s.deferred with
      | [] => ({ s with phase := .sweeping cfg.lanes (s.deferred.map fun d => d.claim.lane) 0 }, {})
      | d :: _ => (s.retryDeferred cfg d left started now answer, {})
    | _ => (s, {})
  | .sweep answer now =>
    match s.phase with
    | .sweeping [] _ opened =>
      ({ s with phase := if opened = 0 ∧ s.replies = [] ∧ s.deferred = [] then .closing else .top }, {})
    | .sweeping (lane :: rest) blocked opened => s.sweepLane cfg lane rest blocked opened now answer
    | _ => (s, {})
  | .stampRaises =>
    match s.phase with
    | .top | .retrying _ _ | .sweeping _ _ _ => ({ s with phase := .closing }, {})
    | _ => (s, {})
  | .close => s.close

def run (cfg : IngressConfig) (events : List IngressEvent) : RingIngress × List IngressOutput :=
  Machine.exec (step cfg) {} events

/-- The slots taken and not yet answered. -/
def held (s : RingIngress) : List Nat :=
  s.replies.map (fun r => r.claim.ticket) ++ s.deferred.map (fun d => d.claim.ticket) ++ s.inFlight.map Claim.ticket

end RingIngress

end ShipInfer.Spill
