import ShipInfer.Lib.Machine

/-!
# Building a plan on demand

`resolve_engine` of `backends/tensorrt/autobuild.py` for one target: the look for the
plan, the lock file, the takeover, the build into a staging file and the wait. A step
is one call on the file system, or a part of the builder's; the calls of any number
of processes take their steps in any order. A call creates one lock file at most, so
its creator tells a lock file from any other that had the name.
-/

namespace ShipInfer.Backends.Autobuild

/-- What a builder call has left in a file. -/
inductive Content
  | partly (build : Nat)
  | whole (build : Nat)
  deriving DecidableEq

structure LockFile where
  creator : Nat
  /-- The pid in it, once it is written. -/
  pid : Option Nat := none
  deriving DecidableEq

/-- What a call does next. -/
inductive Phase
  /-- Looks for the plan. -/
  | looking
  /-- Creates the lock. -/
  | opening
  /-- Reads the lock that was there. -/
  | reading
  | probing (file : LockFile)
  | aging
  /-- Unlinks a lock it takes for abandoned: the file it judged, if there was one. -/
  | seizing (judged : Option Nat)
  | waiting
  | watching
  | rechecking
  /-- Writes its pid to the lock it created. -/
  | created
  | ready
  | building (build : Nat)
  | placing (build : Nat)
  /-- Unlinks the staging file. -/
  | cleaning
  /-- The `finally` block. -/
  | closing (raised : Bool)
  | returned
  | raised
  deriving DecidableEq

/-- From the creation of the lock to its end. -/
def Phase.holds : Phase → Bool
  | .created | .ready | .building _ | .placing _ | .cleaning | .closing _ => true
  | _ => false

structure Process where
  pid : Nat
  alive : Bool := true
  deriving DecidableEq

structure Call where
  /-- Its place among the processes. -/
  process : Nat
  phase : Phase := .looking
  deriving DecidableEq

structure State where
  target : Option Content := none
  staging : Option Content := none
  lock : Option LockFile := none
  processes : List Process := []
  calls : List Call := []
  builds : Nat := 0
  /-- The builder calls that have completed. -/
  completed : List Nat := []
  deriving DecidableEq

/-- What a step shows. -/
structure Output where
  /-- The lock file it unlinked. -/
  removed : Option LockFile := none
  /-- The builder call it began. -/
  started : Option Nat := none
  /-- `resolve_engine` returned the path of the target. -/
  returned : Bool := false
  deriving DecidableEq

/-- What the surroundings decide. -/
structure Choice where
  /-- The lock is older than the build timeout. -/
  old : Bool := false
  /-- The wait has lasted for the build timeout. -/
  expired : Bool := false
  /-- The builder raises. -/
  fails : Bool := false
  deriving DecidableEq

inductive Event
  | spawn (pid : Nat)
  | resolve (process : Nat)
  | act (call : Nat) (choice : Choice)
  | kill (process : Nat)
  deriving DecidableEq

namespace State

def alive (s : State) (process : Nat) : Bool := (s.processes[process]?).any Process.alive

/-- `os.kill(pid, 0)` finds a process. -/
def pidAlive (s : State) (pid : Nat) : Bool := s.processes.any fun p => p.alive && p.pid == pid

def moveTo (s : State) (c : Nat) (call : Call) (phase : Phase) : State :=
  { s with calls := s.calls.set c { call with phase := phase } }

/-- One step of a call of a living process. -/
def act (s : State) (c : Nat) (call : Call) (choice : Choice) : State × Output :=
  match call.phase with
  | .looking =>
    if s.target.isSome then (s.moveTo c call .returned, { returned := true }) else (s.moveTo c call .opening, {})
  | .opening =>
    match s.lock with
    | some _ => (s.moveTo c call .reading, {})
    | none => ({ s.moveTo c call .created with lock := some { creator := c } }, {})
  | .reading =>
    match s.lock with
    | none => (s.moveTo c call .aging, {})
    | some file =>
      match file.pid with
      | none => (s.moveTo c call .aging, {})
      | some _ => (s.moveTo c call (.probing file), {})
  | .probing file =>
    if (file.pid).any s.pidAlive then (s.moveTo c call .waiting, {})
    else (s.moveTo c call (.seizing (some file.creator)), {})
  | .aging =>
    match s.lock with
    | none => (s.moveTo c call (.seizing none), {})
    | some file =>
      if choice.old then (s.moveTo c call (.seizing (some file.creator)), {}) else (s.moveTo c call .waiting, {})
  | .seizing _ => ({ s.moveTo c call .opening with lock := none }, { removed := s.lock })
  | .waiting =>
    if choice.expired then (s.moveTo c call .raised, {})
    else if s.target.isSome then (s.moveTo c call .returned, { returned := true })
    else (s.moveTo c call .watching, {})
  | .watching =>
    if s.lock.isSome then (s.moveTo c call .waiting, {}) else (s.moveTo c call .rechecking, {})
  | .rechecking =>
    if s.target.isSome then (s.moveTo c call .returned, { returned := true }) else (s.moveTo c call .raised, {})
  | .created =>
    -- The text goes to the file that was created, which need not be at the name any more.
    let pid := (s.processes[call.process]?).map Process.pid
    ({ s.moveTo c call .ready with
        lock := s.lock.map fun file => if file.creator = c then { file with pid := pid } else file }, {})
  | .ready =>
    ({ s.moveTo c call (.building s.builds) with
        staging := some (.partly s.builds)
        builds := s.builds + 1 }, { started := some s.builds })
  | .building build =>
    if choice.fails then (s.moveTo c call .cleaning, {})
    else
      ({ s.moveTo c call (.placing build) with
          staging := some (.whole build)
          completed := build :: s.completed }, {})
  | .placing _ =>
    match s.staging with
    | none => (s.moveTo c call .cleaning, {})
    | some content => ({ s.moveTo c call (.closing false) with target := some content, staging := none }, {})
  | .cleaning => ({ s.moveTo c call (.closing true) with staging := none }, {})
  | .closing failed =>
    ({ s.moveTo c call (if failed then .raised else .returned) with lock := none },
      { removed := s.lock, returned := !failed })
  | .returned | .raised => (s, {})

end State

def step (s : State) : Event → State × Output
  | .spawn pid =>
    if pid = 0 ∨ s.pidAlive pid = true then (s, {})
    else ({ s with processes := s.processes ++ [{ pid := pid }] }, {})
  | .resolve process => if s.alive process then ({ s with calls := s.calls ++ [{ process := process }] }, {}) else (s, {})
  | .act c choice =>
    match s.calls[c]? with
    | none => (s, {})
    | some call => if s.alive call.process then s.act c call choice else (s, {})
  | .kill process => ({ s with processes := s.processes.modify process fun p => { p with alive := false } }, {})

/-! ## Who holds the lock -/

def State.inside (s : State) (c : Nat) : Bool := (s.calls[c]?).any fun call => call.phase.holds && s.alive call.process

/-- A call of a living process between the creation of its lock and its end. -/
def Inside (s : State) (c : Nat) : Prop := s.inside c = true

theorem inside_iff {s : State} {c : Nat} :
    Inside s c ↔ ∃ call, s.calls[c]? = some call ∧ call.phase.holds = true ∧ s.alive call.process = true := by
  simp [Inside, State.inside, Option.any_eq_true]

/-- The process that made a call has died. -/
def Died (s : State) (c : Nat) : Prop := ∃ call, s.calls[c]? = some call ∧ s.alive call.process = false

/-- A call of a living process is inside the builder. -/
def Building (s : State) (c build : Nat) : Prop :=
  ∃ call, s.calls[c]? = some call ∧ call.phase = .building build ∧ s.alive call.process = true

end ShipInfer.Backends.Autobuild
