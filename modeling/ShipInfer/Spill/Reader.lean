import ShipInfer.Core.Request
import ShipInfer.Lib.Machine

/-!
# The result reader

`ResultReader` of `engine/spill/remote_instance.py`: one thread that settles the
futures of the requests this process sent to its peers. Callers register under
the lock; the thread takes entries out under the lock and settles them after
it, so between the two they are in its hands. The loop reads results, checks
heartbeats and expires entries in its own order; here it may do so in any.
-/

namespace ShipInfer.Spill

structure ReaderConfig where
  lostAfterNs : Int
  pendingDeadlineNs : Int

/-- A registered request; its future is told by the number of its registration. -/
structure Entry where
  future : Nat
  item : WorkItem
  owner : String
  deadline : Int
  deriving DecidableEq

def statusQueueFull : Nat := 2

def statusInvalid : Nat := 3

/-- What decoding a response gives: it, the failure the owner sent with its
status word, or an error of the decoding. -/
inductive Decoded (ρ : Type)
  | response (r : ρ)
  | failure (code : Nat) (message : String)
  | malformed (error : String)
  deriving DecidableEq

structure Payload (ρ : Type) where
  requestId : Int
  decoded : Decoded ρ

/-- What a future is settled with. -/
inductive Settled (ρ : Type)
  | response (r : ρ)
  | queueFull (owner message : String)
  | validation (owner message : String)
  | remoteFailed (owner message : String)
  | protocol (error : String)
  | timeout (owner : String) (requestId : Int)
  | peerLost (owner : String) (tags : List (String × Int))
  | readerStopped (requestId : Int) (owner : String) (tag : String × Int)
  deriving DecidableEq

inductive Cause
  | result
  | expiry
  | peerLoss
  | stop
  deriving DecidableEq

def Settled.cause {ρ : Type} : Settled ρ → Cause
  | .timeout _ _ => .expiry
  | .peerLost _ _ => .peerLoss
  | .readerStopped _ _ _ => .stop
  | _ => .result

/-- A failure comes back as the type a local one would have. -/
def Decoded.settles {ρ : Type} (owner : String) : Decoded ρ → Settled ρ
  | .response r => .response r
  | .failure code message =>
    if code = statusQueueFull then .queueFull owner message
    else if code = statusInvalid then .validation owner message
    else .remoteFailed owner message
  | .malformed error => .protocol error

/-- Where the thread is, with the entries in its hands. -/
inductive Phase (ρ : Type)
  | looping
  | settling (hands : List (Entry × Settled ρ))
  | sweeping (hands : List (Entry × Settled ρ))
  | exited

structure ResultReader (ρ : Type) where
  pending : Dict Int Entry := .empty
  heartbeats : List String := []
  lost : List String := []
  stopping : Bool := false
  phase : Phase ρ := .looping
  registered : Nat := 0

inductive ReaderEvent (ρ : Type)
  | expect (item : WorkItem) (owner : String) (now : Int)
  | watch (owner : String)
  | stop
  | result (owner : String) (payload : Payload ρ)
  | heartbeat (owner : String) (closed : Bool) (stamped now : Int)
  | expire (now : Int)
  /-- The next entry in the thread's hands is settled. -/
  | settle
  /-- The loop sees `stop`. -/
  | leave
  /-- The loop raises. -/
  | raise

namespace ResultReader

variable {ρ : Type}

/-- A step's reader, and the futures it settles. -/
abbrev Step (ρ : Type) := ResultReader ρ × List (Nat × Settled ρ)

def expect (cfg : ReaderConfig) (s : ResultReader ρ) (item : WorkItem) (owner : String) (now : Int) :
    ResultReader ρ :=
  { s with
    pending := s.pending.set item.request.requestId ⟨s.registered, item, owner, now + cfg.pendingDeadlineNs⟩
    registered := s.registered + 1 }

/-- Entries leave the table and come into the thread's hands. -/
def takeOut (s : ResultReader ρ) (which : Int × Entry → Bool) (settled : Entry → Settled ρ) : ResultReader ρ :=
  { s with
    pending := s.pending.filter fun p => !which p
    phase := .settling ((s.pending.entries.filter which).map fun p => (p.2, settled p.2)) }

/-- A result for an unknown request is dropped. -/
def resolve (s : ResultReader ρ) (owner : String) (payload : Payload ρ) : ResultReader ρ :=
  match s.pending.get? payload.requestId with
  | none => s
  | some e =>
    { s with
      pending := s.pending.erase payload.requestId
      phase := .settling [(e, payload.decoded.settles owner)] }

def expirePending (s : ResultReader ρ) (now : Int) : ResultReader ρ :=
  s.takeOut (fun p => decide (p.2.deadline < now)) fun e => .timeout e.owner e.item.request.requestId

/-- Everything pending at this owner fails, and every error carries all the tags. -/
def failOwner (s : ResultReader ρ) (owner : String) : ResultReader ρ :=
  s.takeOut (fun p => decide (p.2.owner = owner)) fun _ => .peerLost owner
    ((s.pending.entries.filter fun p => decide (p.2.owner = owner)).map fun p => p.2.item.request.context.key)

/-- A peer is failed once for each loss, when its silence is first seen. -/
def checkHeartbeat (cfg : ReaderConfig) (s : ResultReader ρ) (owner : String) (closed : Bool) (stamped now : Int) :
    ResultReader ρ :=
  if owner ∉ s.heartbeats then s
  else if closed = false ∧ now - stamped < cfg.lostAfterNs then { s with lost := s.lost.filter fun o => decide (o ≠ owner) }
  else if owner ∈ s.lost then s
  else ({ s with lost := s.lost ++ [owner] } : ResultReader ρ).failOwner owner

/-- `_fail_stranded` under the lock. -/
def failStranded (s : ResultReader ρ) : ResultReader ρ :=
  { s with
    pending := .empty
    phase := .sweeping (s.pending.entries.map fun p => (p.2, .readerStopped p.1 p.2.owner p.2.item.request.context.key)) }

def settle (s : ResultReader ρ) : Step ρ :=
  match s.phase with
  | .settling [] => ({ s with phase := .looping }, [])
  | .settling ((e, settled) :: hands) => ({ s with phase := .settling hands }, [(e.future, settled)])
  | .sweeping [] => ({ s with phase := .exited }, [])
  | .sweeping ((e, settled) :: hands) => ({ s with phase := .sweeping hands }, [(e.future, settled)])
  | _ => (s, [])

/-- What only the loop does, it does only there. -/
def looping (s : ResultReader ρ) (next : ResultReader ρ) : Step ρ :=
  match s.phase with
  | .looping => (next, [])
  | _ => (s, [])

def step (cfg : ReaderConfig) (s : ResultReader ρ) : ReaderEvent ρ → Step ρ
  | .expect item owner now => (s.expect cfg item owner now, [])
  | .watch owner => ({ s with heartbeats := s.heartbeats ++ [owner] }, [])
  | .stop => ({ s with stopping := true }, [])
  | .result owner payload => s.looping (s.resolve owner payload)
  | .heartbeat owner closed stamped now => s.looping (s.checkHeartbeat cfg owner closed stamped now)
  | .expire now => s.looping (s.expirePending now)
  | .settle => s.settle
  | .leave => if s.stopping then s.looping s.failStranded else (s, [])
  | .raise => s.looping s.failStranded

/-- The calling side, the peers and the thread in any interleaving: the reader
left, and the futures settled in order. -/
def run (cfg : ReaderConfig) (events : List (ReaderEvent ρ)) : ResultReader ρ × List (Nat × Settled ρ) :=
  let r := Machine.exec (step cfg) {} events
  (r.1, r.2.flatten)

/-- The thread has made its last sweep. -/
def swept (s : ResultReader ρ) : Bool :=
  match s.phase with
  | .sweeping _ => true
  | .exited => true
  | _ => false

/-- A registration comes before the last sweep, under an id that is not pending. -/
def InTime (s : ResultReader ρ) : ReaderEvent ρ → Prop
  | .expect item _ _ => s.swept = false ∧ item.request.requestId ∉ s.pending.keys
  | _ => True

instance (s : ResultReader ρ) : ∀ e : ReaderEvent ρ, Decidable (s.InTime e)
  | .expect item _ _ => inferInstanceAs (Decidable (_ ∧ item.request.requestId ∉ s.pending.keys))
  | .watch _ | .stop | .result _ _ | .heartbeat _ _ _ _ | .expire _ | .settle | .leave | .raise =>
    .isTrue trivial

def hands (s : ResultReader ρ) : List (Entry × Settled ρ) :=
  match s.phase with
  | .settling hands => hands
  | .sweeping hands => hands
  | _ => []

/-- The registrations whose futures nobody has settled: pending or in the thread's hands. -/
def unsettled (s : ResultReader ρ) : List Nat :=
  s.hands.map (fun p => p.1.future) ++ s.pending.entries.map (fun p => p.2.future)

end ResultReader

end ShipInfer.Spill
