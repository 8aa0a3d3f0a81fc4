import Mathlib.Logic.Function.Basic
import ShipInfer.Lib.Machine

/-!
# The shared ring

`SharedRing` of `runtime/memory/shared_ring.py`: slots in shared memory, one
state byte each, between a process whose threads submit and the owner. A swap of
a state byte is a read and a write under the view lock of its own process, and
the other process may act between the two, so each is a step. A thread that
finds a lock taken waits. A submitter publishes or abandons what it has claimed,
and the owner releases what it has taken.
-/

namespace ShipInfer.Ring

inductive SlotState
  | free
  | claimed
  | written
  | taken
  deriving DecidableEq

/-- How a submitter lets go of a slot. -/
inductive Ending
  | publish
  | abandon
  deriving DecidableEq

def Ending.to : Ending → SlotState
  | .publish => .written
  | .abandon => .free

/-- Where a submitter thread is. -/
inductive SubmitCall
  | idle
  /-- `claim`, before it looks at `is_closed`. -/
  | claiming
  /-- `claim`, before the submit lock. -/
  | locking
  /-- `claim` under the submit lock, with this many slots left to try. -/
  | scanning (left : Nat)
  /-- `claim` has read the byte as free. -/
  | claimSwap (index : Nat)
  /-- `claim` has tried every slot. -/
  | missed
  | holding (index : Nat)
  /-- Holding, with a view of the payload. -/
  | filling (index : Nat)
  /-- `publish` or `abandon`, before the submit lock. -/
  | ending (index : Nat) (how : Ending)
  | endingLocked (index : Nat) (how : Ending)
  /-- `publish` or `abandon` has read the byte as claimed. -/
  | endSwap (index : Nat) (how : Ending)
  deriving DecidableEq

/-- Where the owner's thread is. -/
inductive OwnerCall
  | idle
  | taking
  /-- `take`, after this many slots. -/
  | scanning (step : Nat)
  | takeSwap (index : Nat)
  | missed
  | releasing (index : Nat)
  | releaseSwap (index : Nat)
  deriving DecidableEq

/-- The shared memory and the two handles. -/
structure SharedRing (β : Type) where
  state : Nat → SlotState := fun _ => .free
  bytes : Nat → β
  closed : Bool := false
  detached : Bool := false
  viewLock : Option Nat := none
  submitLock : Option Nat := none
  next : Nat := 0
  call : Nat → SubmitCall := fun _ => .idle
  ownerDetached : Bool := false
  takeNext : Nat := 0
  ownerCall : OwnerCall := .idle
  /-- Taken and not yet released. -/
  held : List Nat := []

inductive RingError
  | closed
  | full (depth slots : Nat)
  | protocol (index : Nat) (state : SlotState)
  deriving DecidableEq

/-- What happens to a slot, with the bytes it has then. -/
inductive SlotEvent (β : Type)
  | claimed (thread : Nat)
  | published (thread : Nat) (bytes : β)
  | abandoned (thread : Nat)
  | took (bytes : β)
  | released (bytes : β)
  deriving DecidableEq

def Ending.event {β : Type} (how : Ending) (t : Nat) (bytes : β) : SlotEvent β :=
  match how with
  | .publish => .published t bytes
  | .abandon => .abandoned t

inductive Output (β : Type)
  | quiet
  | slot (index : Nat) (event : SlotEvent β)
  | raised (error : RingError)
  /-- `take` returned `None`. -/
  | noWork
  deriving DecidableEq

inductive Event (β : Type)
  | claim (thread : Nat)
  | payload (thread : Nat)
  /-- Through a view of the payload. -/
  | write (thread : Nat) (bytes : β)
  | finish (thread : Nat) (how : Ending)
  /-- A thread's call goes on; whether its deadline has passed. -/
  | submitStep (thread : Nat) (late : Bool)
  | detach
  | take
  | release (index : Nat)
  | ownerStep (late : Bool)
  /-- The owner's `close`, first half: the closed byte. -/
  | markClosed
  | ownerDetach

namespace SharedRing

variable {β : Type}

/-- The state a step leaves, and what it puts out. -/
abbrev Step (β : Type) := SharedRing β × Output β

def goto (r : SharedRing β) (t : Nat) (c : SubmitCall) : SharedRing β := { r with call := Function.update r.call t c }

/-- Slots not free, as the submitting handle sees them. -/
def depth (slots : Nat) (r : SharedRing β) : Nat :=
  if r.detached then 0 else ((List.range slots).filter fun i => decide (r.state i ≠ .free)).length

/-! ## The submitting handle -/

def claim (r : SharedRing β) (t : Nat) : Step β :=
  if r.call t = .idle then (r.goto t .claiming, .quiet) else (r, .quiet)

def payload (r : SharedRing β) (t : Nat) : Step β :=
  match r.call t with
  | .holding i =>
    if r.viewLock ≠ none then (r, .quiet)
    else if r.detached then (r, .raised .closed)
    else (r.goto t (.filling i), .quiet)
  | _ => (r, .quiet)

def write (r : SharedRing β) (t : Nat) (bytes : β) : Step β :=
  match r.call t with
  | .filling i => ({ r with bytes := Function.update r.bytes i bytes }, .quiet)
  | _ => (r, .quiet)

/-- `publish` and `abandon`, inert on a detached handle. -/
def finish (r : SharedRing β) (t : Nat) (how : Ending) : Step β :=
  match r.call t with
  | .holding i | .filling i =>
    if r.detached then (r.goto t .idle, .quiet) else (r.goto t (.ending i how), .quiet)
  | _ => (r, .quiet)

/-- One try of the scan: the cursor moves on, whatever the slot. -/
def tryClaim (slots : Nat) (r : SharedRing β) (t left : Nat) : SharedRing β :=
  let r' := { r with next := (r.next + 1) % slots }
  if r.detached = false ∧ r.state r.next = .free then
    { r'.goto t (.claimSwap r.next) with viewLock := some t }
  else r'.goto t (.scanning left)

def submitStep (slots : Nat) (r : SharedRing β) (t : Nat) (late : Bool) : Step β :=
  match r.call t with
  | .claiming =>
    if r.viewLock ≠ none then (r, .quiet)
    else if r.detached ∨ r.closed then (r.goto t .idle, .raised .closed)
    else (r.goto t .locking, .quiet)
  | .locking =>
    if r.submitLock ≠ none then (r, .quiet)
    else ({ r.goto t (.scanning slots) with submitLock := some t }, .quiet)
  | .scanning 0 => ({ r.goto t .missed with submitLock := none }, .quiet)
  | .scanning (left + 1) => if r.viewLock ≠ none then (r, .quiet) else (r.tryClaim slots t left, .quiet)
  | .claimSwap i =>
    ({ r.goto t (.holding i) with
        state := Function.update r.state i .claimed
        viewLock := none
        submitLock := none }, .slot i (.claimed t))
  | .missed =>
    if late then
      if r.viewLock ≠ none then (r, .quiet) else (r.goto t .idle, .raised (.full (r.depth slots) slots))
    else (r.goto t .claiming, .quiet)
  | .ending i how =>
    if r.submitLock ≠ none then (r, .quiet)
    else ({ r.goto t (.endingLocked i how) with submitLock := some t }, .quiet)
  | .endingLocked i how =>
    if r.viewLock ≠ none then (r, .quiet)
    else if r.detached then ({ r.goto t .idle with submitLock := none }, .quiet)
    else if r.state i ≠ .claimed then
      ({ r.goto t .idle with submitLock := none }, .raised (.protocol i (r.state i)))
    else ({ r.goto t (.endSwap i how) with viewLock := some t }, .quiet)
  | .endSwap i how =>
    ({ r.goto t .idle with
        state := Function.update r.state i how.to
        viewLock := none
        submitLock := none }, .slot i (how.event t (r.bytes i)))
  | _ => (r, .quiet)

/-- `close` on this side, once no swap is under way. -/
def detach (r : SharedRing β) : Step β :=
  if r.viewLock ≠ none then (r, .quiet) else ({ r with detached := true }, .quiet)

/-! ## The owner's handle -/

/-- Its view lock is taken between the two halves of a swap only. -/
def ownerSwapping (r : SharedRing β) : Bool :=
  match r.ownerCall with
  | .takeSwap _ => true
  | .releaseSwap _ => true
  | _ => false

def take (r : SharedRing β) : Step β :=
  if r.ownerCall = .idle then ({ r with ownerCall := .taking }, .quiet) else (r, .quiet)

/-- `release` of a slot the owner has, inert on a detached handle. -/
def release (r : SharedRing β) (i : Nat) : Step β :=
  if r.ownerCall = .idle ∧ i ∈ r.held then
    let r' := { r with held := r.held.erase i }
    if r.ownerDetached then (r', .quiet) else ({ r' with ownerCall := .releasing i }, .quiet)
  else (r, .quiet)

def ownerStep (slots : Nat) (r : SharedRing β) (late : Bool) : Step β :=
  match r.ownerCall with
  | .idle => (r, .quiet)
  | .taking =>
    if r.ownerDetached then ({ r with ownerCall := .idle }, .noWork) else ({ r with ownerCall := .scanning 0 }, .quiet)
  | .scanning step =>
    if step < slots then
      let i := (r.takeNext + step) % slots
      if r.ownerDetached = false ∧ r.state i = .written then ({ r with ownerCall := .takeSwap i }, .quiet)
      else ({ r with ownerCall := .scanning (step + 1) }, .quiet)
    else ({ r with ownerCall := .missed }, .quiet)
  | .takeSwap i =>
    ({ r with
        state := Function.update r.state i .taken
        takeNext := (i + 1) % slots
        held := i :: r.held
        ownerCall := .idle }, .slot i (.took (r.bytes i)))
  | .missed =>
    if r.ownerDetached ∨ r.closed ∨ late then ({ r with ownerCall := .idle }, .noWork)
    else ({ r with ownerCall := .taking }, .quiet)
  | .releasing i =>
    if r.ownerDetached then ({ r with ownerCall := .idle }, .quiet)
    else if r.state i ≠ .taken then ({ r with ownerCall := .idle }, .raised (.protocol i (r.state i)))
    else ({ r with ownerCall := .releaseSwap i }, .quiet)
  | .releaseSwap i =>
    ({ r with
        state := Function.update r.state i .free
        ownerCall := .idle }, .slot i (.released (r.bytes i)))

def markClosed (r : SharedRing β) : Step β :=
  if r.ownerSwapping ∨ r.ownerDetached then (r, .quiet) else ({ r with closed := true }, .quiet)

def ownerDetach (r : SharedRing β) : Step β :=
  if r.ownerSwapping then (r, .quiet) else ({ r with ownerDetached := true }, .quiet)

def step (slots : Nat) (r : SharedRing β) : Event β → Step β
  | .claim t => r.claim t
  | .payload t => r.payload t
  | .write t bytes => r.write t bytes
  | .finish t how => r.finish t how
  | .submitStep t late => r.submitStep slots t late
  | .detach => r.detach
  | .take => r.take
  | .release i => r.release i
  | .ownerStep late => r.ownerStep slots late
  | .markClosed => r.markClosed
  | .ownerDetach => r.ownerDetach

/-- Threads of both processes in any interleaving, over a new ring whose memory
holds these bytes. -/
def run (slots : Nat) (bytes : Nat → β) (events : List (Event β)) : SharedRing β × List (Output β) :=
  Machine.exec (step slots) { bytes := bytes } events

end SharedRing

/-- What an output says of a slot. -/
def Output.at {β : Type} (i : Nat) : Output β → Option (SlotEvent β)
  | .slot j event => if j = i then some event else none
  | _ => none

/-- What has happened to a slot. -/
def slotTrace {β : Type} (i : Nat) (outputs : List (Output β)) : List (SlotEvent β) := outputs.filterMap (Output.at i)

/-- The slot a thread has claimed and not let go. -/
def SubmitCall.index? : SubmitCall → Option Nat
  | .holding i => some i
  | .filling i => some i
  | .ending i _ => some i
  | .endingLocked i _ => some i
  | .endSwap i _ => some i
  | _ => none

/-- A call of the submitting handle, a view handed out before apart. -/
def Event.onSubmit {β : Type} : Event β → Bool
  | .claim _ => true
  | .payload _ => true
  | .finish _ _ => true
  | .submitStep _ _ => true
  | .detach => true
  | _ => false

/-- A call of the owner's handle. -/
def Event.onOwner {β : Type} : Event β → Bool
  | .take => true
  | .release _ => true
  | .ownerStep _ => true
  | .markClosed => true
  | .ownerDetach => true
  | _ => false

end ShipInfer.Ring
