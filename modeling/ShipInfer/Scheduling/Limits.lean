import Mathlib
import ShipInfer.Lib.Machine
import ShipInfer.Lib.Weights

/-!
# A bound on concurrent executions

`ConcurrencyRateLimiter` of `scheduling/limits/concurrency.py`, and `RateLimiter.execution`
of `scheduling/limits/base.py`, which releases what it acquired. Any number of calls are
under way and take their steps in any order. The semaphore and the counters have locks of
their own, so a call may stand between a step on the one and its step on the other.
-/

namespace ShipInfer.Scheduling.Limits

/-- Where a call of `acquire` and the `release` of what it got stand. -/
inductive Phase
  /-- Before the attempt that does not block. -/
  | trying
  /-- Parked in the semaphore. -/
  | waiting
  /-- With a slot of the semaphore, before `_on_acquired` has the counter lock. -/
  | took (waitedNs : Nat)
  | counting (waitedNs : Nat)
  /-- `_held` is raised. -/
  | counted (waitedNs : Nat)
  /-- The peak is raised. -/
  | peaked (waitedNs : Nat)
  /-- `acquire` has returned `True`. -/
  | granted
  | releasing
  /-- `release` has the counter lock. -/
  | freeing
  /-- The semaphore has the slot back. -/
  | freed
  | lowered
  | released
  /-- `release` has raised `ValueError`. -/
  | raised
  /-- The semaphore's wait has timed out. -/
  | expired (waitedNs : Nat)
  | expiring (waitedNs : Nat)
  /-- `acquire` has returned `False`. -/
  | timedOut
  deriving DecidableEq

structure Call where
  /-- Whether it was given a timeout. -/
  timed : Bool
  phase : Phase := .trying
  deriving DecidableEq

structure ConcurrencyRateLimiter where
  limit : Nat
  /-- The semaphore's value. -/
  slots : Nat
  held : Int := 0
  counterLock : Option Nat := none
  granted : Nat := 0
  waited : Nat := 0
  timedOut : Nat := 0
  waitNs : Nat := 0
  peakInFlight : Int := 0
  calls : List Call := []
  deriving DecidableEq

inductive ConfigurationError
  | negative (bound : Int)
  | unbounded (bound : Int)
  deriving DecidableEq

inductive Event
  | acquire (timed : Bool)
  /-- A call goes on; a wait that ends has taken this long. -/
  | go (i : Nat) (waitedNs : Nat)
  | expire (i : Nat) (waitedNs : Nat)
  | release (i : Nat)
  deriving DecidableEq

namespace ConcurrencyRateLimiter

/-- `__init__` -/
def make (maxConcurrentExecutions : Int) : Except ConfigurationError ConcurrencyRateLimiter :=
  if maxConcurrentExecutions < 0 then .error (.negative maxConcurrentExecutions)
  else if maxConcurrentExecutions < 1 then .error (.unbounded maxConcurrentExecutions)
  else .ok { limit := maxConcurrentExecutions.toNat, slots := maxConcurrentExecutions.toNat }

def inFlight (s : ConcurrencyRateLimiter) : Int := s.held

/-- A call comes to another place. -/
def put (s : ConcurrencyRateLimiter) (i : Nat) (call : Call) (phase : Phase) : ConcurrencyRateLimiter :=
  { s with calls := s.calls.set i { call with phase } }

/-- It has the counter lock, if that is free. -/
def lock (s : ConcurrencyRateLimiter) (i : Nat) (call : Call) (phase : Phase) : Option ConcurrencyRateLimiter :=
  if s.counterLock = none then some { s.put i call phase with counterLock := some i } else none

def unlock (s : ConcurrencyRateLimiter) (i : Nat) (call : Call) (phase : Phase) : ConcurrencyRateLimiter :=
  { s.put i call phase with counterLock := none }

/-- The next step of a call, if it is not blocked. -/
def go (s : ConcurrencyRateLimiter) (i : Nat) (call : Call) (waitedNs : Nat) : Option ConcurrencyRateLimiter :=
  match call.phase with
  | .trying =>
    if s.slots = 0 then some (s.put i call .waiting)
    else some { s.put i call (.took 0) with slots := s.slots - 1 }
  | .waiting => if s.slots = 0 then none else some { s.put i call (.took waitedNs) with slots := s.slots - 1 }
  | .took ns => s.lock i call (.counting ns)
  | .counting ns => some { s.put i call (.counted ns) with granted := s.granted + 1, held := s.held + 1 }
  | .counted ns => some { s.put i call (.peaked ns) with peakInFlight := max s.peakInFlight s.held }
  | .peaked ns =>
    some { s.unlock i call .granted with waited := s.waited + (if ns = 0 then 0 else 1), waitNs := s.waitNs + ns }
  | .releasing => s.lock i call .freeing
  -- A bounded semaphore takes no more slots than it was made with.
  | .freeing => if s.limit ≤ s.slots then some (s.unlock i call .raised) else some { s.put i call .freed with slots := s.slots + 1 }
  | .freed => some { s.put i call .lowered with held := s.held - 1 }
  | .lowered => some (s.unlock i call .released)
  | .expired ns => s.lock i call (.expiring ns)
  | .expiring ns =>
    some
      { s.unlock i call .timedOut with
        timedOut := s.timedOut + 1
        waited := s.waited + 1
        waitNs := s.waitNs + ns }
  | .granted | .released | .raised | .timedOut => none

def step (s : ConcurrencyRateLimiter) : Event → Option ConcurrencyRateLimiter
  | .acquire timed => some { s with calls := s.calls ++ [{ timed }] }
  | .go i waitedNs =>
    match s.calls[i]? with
    | none => none
    | some call => s.go i call waitedNs
  -- A wait that is over looks at the value once more.
  | .expire i waitedNs =>
    match s.calls[i]? with
    | none => none
    | some call =>
      if call.phase = .waiting ∧ call.timed = true ∧ s.slots = 0 then some (s.put i call (.expired waitedNs)) else none
  -- A grant is released by its holder, once.
  | .release i =>
    match s.calls[i]? with
    | none => none
    | some call => if call.phase = .granted then some (s.put i call .releasing) else none

end ConcurrencyRateLimiter

/-- A limiter with its calls, in any interleaving. -/
def limiter (maxConcurrentExecutions : Int) : Machine ConcurrencyRateLimiter Event where
  init s := ConcurrencyRateLimiter.make maxConcurrentExecutions = .ok s
  step s e t := s.step e = some t

/-! ## What a place holds -/

namespace Phase

/-- A slot of the semaphore, as its value has it. -/
def slot : Phase → Nat
  | .took _ | .counting _ | .counted _ | .peaked _ | .granted | .releasing | .freeing | .raised => 1
  | _ => 0

/-- One of `_held`. -/
def counts : Phase → Nat
  | .counted _ | .peaked _ | .granted | .releasing | .freeing | .freed | .raised => 1
  | _ => 0

/-- A slot that `_held` does not count yet. -/
def due : Phase → Nat
  | .took _ | .counting _ => 1
  | _ => 0

/-- One that `_held` still counts and the semaphore does not. -/
def late : Phase → Nat
  | .freed => 1
  | _ => 0

/-- The counter lock. -/
def locks : Phase → Bool
  | .counting _ | .counted _ | .peaked _ | .freeing | .freed | .lowered | .expiring _ => true
  | _ => false

/-- The call has got a slot, whatever became of it. -/
def got : Phase → Bool
  | .trying | .waiting | .expired _ | .expiring _ | .timedOut => false
  | _ => true

/-- The call is not under way. -/
def rests : Phase → Bool
  | .granted | .released | .raised | .timedOut => true
  | _ => false

theorem slot_add_late (p : Phase) : p.slot + p.late = p.counts + p.due := by
  cases p <;> rfl

theorem not_got {p : Phase} (h : p.got = false) : p.slot = 0 ∧ p.counts = 0 := by
  cases p <;> first | exact ⟨rfl, rfl⟩ | cases h

end Phase

namespace ConcurrencyRateLimiter

variable {s t : ConcurrencyRateLimiter}

def summed (s : ConcurrencyRateLimiter) (f : Phase → Nat) : Nat := weigh (fun call => f call.phase) s.calls

/-- The grants not yet released. -/
def grants (s : ConcurrencyRateLimiter) : Nat := s.calls.countP fun call => decide (call.phase = .granted)

def Quiet (s : ConcurrencyRateLimiter) : Prop := ∀ call ∈ s.calls, call.phase.rests = true

/-- A call comes to `phase`, and what that changes. -/
structure Goes (s t : ConcurrencyRateLimiter) (i : Nat) (call : Call) (phase : Phase) : Prop where
  get : s.calls[i]? = some call
  calls : t.calls = s.calls.set i { call with phase }
  limit : t.limit = s.limit
  slots : t.slots + phase.slot = s.slots + call.phase.slot
  held : t.held + call.phase.counts = s.held + phase.counts
  lock : (phase.locks = call.phase.locks ∧ t.counterLock = s.counterLock) ∨
    (phase.locks = true ∧ s.counterLock = none ∧ t.counterLock = some i) ∨
    (call.phase.locks = true ∧ phase.locks = false ∧ t.counterLock = none)
  peak : t.peakInFlight = s.peakInFlight ∨ (phase.got = true ∧ t.held = s.held ∧ t.peakInFlight = max s.peakInFlight s.held)
  got : call.phase.got = true → phase.got = true
  /-- The places at which what is due and what is late change. -/
  late : (phase.late = call.phase.late ∧ s.slots + call.phase.due ≤ t.slots + phase.due) ∨
    (∃ ns, call.phase = .counting ns ∧ phase = .counted ns) ∨ (call.phase = .freeing ∧ phase = .freed) ∨
    (call.phase = .freed ∧ phase = .lowered)
  raised : phase = .raised → call.phase = .freeing ∧ s.limit ≤ s.slots

variable {i : Nat} {call : Call} {phase : Phase}

theorem goes_lock (hget : s.calls[i]? = some call) (h : s.lock i call phase = some t)
    (hunlocked : phase.locks = true) (hslot : phase.slot = call.phase.slot) (hcounts : phase.counts = call.phase.counts)
    (hlate : phase.late = call.phase.late) (hdue : phase.due = call.phase.due) (hgot : phase.got = call.phase.got)
    (hraised : phase ≠ .raised) : Goes s t i call phase := by
  unfold lock at h
  split at h
  · cases h
    exact
      { get := hget
        calls := rfl
        limit := rfl
        slots := by rw [hslot]; rfl
        held := by rw [hcounts]; rfl
        lock := .inr (.inl ⟨hunlocked, ‹_›, rfl⟩)
        peak := .inl rfl
        got := fun hg => hgot ▸ hg
        late := .inl ⟨hlate, by rw [hdue]; exact Nat.le_refl _⟩
        raised := fun he => absurd he hraised }
  · cases h

theorem goes_of_go (hget : s.calls[i]? = some call) {ns : Nat} (h : s.go i call ns = some t) : ∃ phase, Goes s t i call phase := by
  obtain ⟨timed, p⟩ := call
  cases p with
  | trying =>
    simp only [go] at h
    split at h
    · cases h
      exact ⟨.waiting, hget, rfl, rfl, rfl, rfl, .inl ⟨rfl, rfl⟩, .inl rfl, nofun,
        .inl ⟨rfl, Nat.le_refl _⟩, nofun⟩
    · rename_i hslots
      cases h
      have hone : s.slots - 1 + 1 = s.slots + 0 := by omega
      exact ⟨.took 0, hget, rfl, rfl, hone, rfl, .inl ⟨rfl, rfl⟩, .inl rfl, fun _ => rfl, .inl ⟨rfl, hone.ge⟩,
        nofun⟩
  | waiting =>
    simp only [go] at h
    split at h
    · cases h
    · rename_i hslots
      cases h
      have hone : s.slots - 1 + 1 = s.slots + 0 := by omega
      exact ⟨.took ns, hget, rfl, rfl, hone, rfl, .inl ⟨rfl, rfl⟩, .inl rfl, fun _ => rfl, .inl ⟨rfl, hone.ge⟩,
        nofun⟩
  | took n => exact ⟨_, goes_lock hget h rfl rfl rfl rfl rfl rfl (by simp)⟩
  | counting n =>
    cases h
    exact ⟨.counted n, hget, rfl, rfl, rfl, Int.add_zero _, .inl ⟨rfl, rfl⟩, .inl rfl, fun _ => rfl,
      .inr (.inl ⟨n, rfl, rfl⟩), nofun⟩
  | counted n =>
    cases h
    exact ⟨.peaked n, hget, rfl, rfl, rfl, rfl, .inl ⟨rfl, rfl⟩, .inr ⟨rfl, rfl, rfl⟩, fun _ => rfl,
      .inl ⟨rfl, Nat.le_refl _⟩, nofun⟩
  | peaked n =>
    cases h
    exact ⟨.granted, hget, rfl, rfl, rfl, rfl, .inr (.inr ⟨rfl, rfl, rfl⟩), .inl rfl, fun _ => rfl,
      .inl ⟨rfl, Nat.le_refl _⟩, nofun⟩
  | releasing => exact ⟨_, goes_lock hget h rfl rfl rfl rfl rfl rfl (by simp)⟩
  | freeing =>
    simp only [go] at h
    split at h
    · rename_i hfull
      cases h
      exact ⟨.raised, hget, rfl, rfl, rfl, rfl, .inr (.inr ⟨rfl, rfl, rfl⟩), .inl rfl, fun _ => rfl,
        .inl ⟨rfl, Nat.le_refl _⟩, fun _ => ⟨rfl, hfull⟩⟩
    · cases h
      exact ⟨.freed, hget, rfl, rfl, rfl, rfl, .inl ⟨rfl, rfl⟩, .inl rfl, fun _ => rfl, .inr (.inr (.inl ⟨rfl, rfl⟩)),
        nofun⟩
  | freed =>
    cases h
    exact ⟨.lowered, hget, rfl, rfl, rfl, (Int.sub_add_cancel _ _).trans (Int.add_zero _).symm, .inl ⟨rfl, rfl⟩, .inl rfl,
      fun _ => rfl, .inr (.inr (.inr ⟨rfl, rfl⟩)), nofun⟩
  | lowered =>
    cases h
    exact ⟨.released, hget, rfl, rfl, rfl, rfl, .inr (.inr ⟨rfl, rfl, rfl⟩), .inl rfl, fun _ => rfl,
      .inl ⟨rfl, Nat.le_refl _⟩, nofun⟩
  | expired n => exact ⟨_, goes_lock hget h rfl rfl rfl rfl rfl rfl (by simp)⟩
  | expiring n =>
    cases h
    exact ⟨.timedOut, hget, rfl, rfl, rfl, rfl, .inr (.inr ⟨rfl, rfl, rfl⟩), .inl rfl, nofun,
      .inl ⟨rfl, Nat.le_refl _⟩, nofun⟩
  | granted => cases h
  | released => cases h
  | raised => cases h
  | timedOut => cases h

/-- The call whose step an event is. -/
def callOf (s : ConcurrencyRateLimiter) : Event → Nat
  | .acquire _ => s.calls.length
  | .go i _ => i
  | .expire i _ => i
  | .release i => i

/-- What a step can do. -/
theorem step_cases {e : Event} (h : s.step e = some t) :
    (∃ timed, e = .acquire timed ∧ t = { s with calls := s.calls ++ [{ timed }] }) ∨
      ∃ call phase, Goes s t (s.callOf e) call phase := by
  cases e with
  | acquire timed =>
    cases h
    exact .inl ⟨timed, rfl, rfl⟩
  | go i ns =>
    simp only [step] at h
    split at h
    · cases h
    · exact .inr ⟨_, goes_of_go ‹_› h⟩
  | expire i ns =>
    simp only [step] at h
    split at h
    · cases h
    · rename_i call hget
      split at h
      · rename_i hphase
        obtain ⟨hphase, -, -⟩ := hphase
        cases h
        exact .inr ⟨call, .expired ns, hget, rfl, rfl, by rw [hphase]; rfl, by rw [hphase]; rfl,
          .inl ⟨by rw [hphase]; rfl, rfl⟩, .inl rfl, fun hg => (by rw [hphase] at hg; cases hg),
          .inl ⟨by rw [hphase]; rfl, by rw [hphase]; exact Nat.le_refl _⟩, nofun⟩
      · cases h
  | release i =>
    simp only [step] at h
    split at h
    · cases h
    · rename_i call hget
      split at h
      · rename_i hphase
        cases h
        exact .inr ⟨call, .releasing, hget, rfl, rfl, by rw [hphase]; rfl, by rw [hphase]; rfl,
          .inl ⟨by rw [hphase]; rfl, rfl⟩, .inl rfl, fun _ => rfl,
          .inl ⟨by rw [hphase]; rfl, by rw [hphase]; exact Nat.le_refl _⟩, nofun⟩
      · cases h

/-! ## The semaphore and the counter agree -/

/-- What holds between any two steps. -/
structure Sound (s : ConcurrencyRateLimiter) : Prop where
  lock : ∀ i, s.counterLock = some i ↔ (s.calls[i]?.any fun call => call.phase.locks) = true
  slots : s.slots + s.summed Phase.slot = s.limit
  held : s.held = s.summed Phase.counts
  /-- While a slot is back and still counted, it is free or another call has it. -/
  late : s.summed Phase.late = 0 ∨ (s.summed Phase.late = 1 ∧ 1 ≤ s.slots + s.summed Phase.due)
  peak : 0 ≤ s.peakInFlight ∧ s.peakInFlight ≤ s.limit
  intact : ∀ call ∈ s.calls, call.phase ≠ .raised

theorem summed_balance (s : ConcurrencyRateLimiter) :
    s.summed Phase.slot + s.summed Phase.late = s.summed Phase.counts + s.summed Phase.due :=
  weigh_add_eq fun call _ => call.phase.slot_add_late

theorem Sound.held_le (h : s.Sound) : 0 ≤ s.held ∧ s.held ≤ s.limit := by
  have hbalance := s.summed_balance
  have hslots := h.slots
  rw [h.held]
  rcases h.late with hlate | ⟨hlate, hspare⟩ <;> omega

theorem Goes.summed (h : Goes s t i call phase) (f : Phase → Nat) : t.summed f + f call.phase = s.summed f + f phase := by
  rw [ConcurrencyRateLimiter.summed, h.calls]
  exact weigh_set (fun call => f call.phase) { call with phase } h.get

theorem Goes.get_ne (h : Goes s t i call phase) {j : Nat} (hj : j ≠ i) : t.calls[j]? = s.calls[j]? := by
  rw [h.calls, List.getElem?_set_ne (Ne.symm hj)]

theorem Goes.get_self (h : Goes s t i call phase) : t.calls[i]? = some { call with phase } := by
  have hlt := (List.getElem?_eq_some_iff.mp h.get).1
  rw [h.calls, List.getElem?_set_self hlt]

theorem Sound.lock_iff (h : s.Sound) (hget : s.calls[i]? = some call) : s.counterLock = some i ↔ call.phase.locks = true := by
  rw [h.lock, hget, Option.any_some]

/-- A place that only a holder of the lock can be in is nobody else's. -/
theorem Sound.late_zero (h : s.Sound) (hget : s.calls[i]? = some call) (hlocks : call.phase.locks = true)
    (hne : call.phase ≠ .freed) : s.summed Phase.late = 0 := by
  apply weigh_eq_zero.mpr
  intro other hother
  obtain ⟨j, hj⟩ := List.mem_iff_getElem?.mp hother
  by_contra hlate
  have hfreed : other.phase = .freed := by
    cases hp : other.phase <;> first | rfl | exact absurd (by rw [hp]; rfl) hlate
  have hmine := (h.lock_iff hget).mpr hlocks
  have hother := (h.lock_iff hj).mpr (by rw [hfreed]; rfl)
  rw [hmine] at hother
  obtain rfl := Option.some.inj hother
  rw [hget] at hj
  exact hne (Option.some.inj hj ▸ hfreed)

theorem Goes.lock_sound (h : Goes s t i call phase) (hs : s.Sound) (j : Nat) :
    t.counterLock = some j ↔ (t.calls[j]?.any fun call => call.phase.locks) = true := by
  have hmine := hs.lock_iff h.get
  by_cases hji : j = i
  · subst hji
    rw [h.get_self, Option.any_some]
    rcases h.lock with ⟨hsame, hlock⟩ | ⟨hlocks, -, hlock⟩ | ⟨-, hunlocks, hlock⟩
    · rw [hlock, hmine, ← hsame]
    · simp [hlocks, hlock]
    · simp [hunlocks, hlock]
  · rw [h.get_ne hji, ← hs.lock j]
    rcases h.lock with ⟨-, hlock⟩ | ⟨-, hnone, hlock⟩ | ⟨hlocks, -, hlock⟩
    · rw [hlock]
    · rw [hnone, hlock]
      simp [Ne.symm hji]
    · rw [hlock, hmine.mpr hlocks]
      simp [Ne.symm hji]

theorem Goes.late_sound (h : Goes s t i call phase) (hs : s.Sound) :
    t.summed Phase.late = 0 ∨ (t.summed Phase.late = 1 ∧ 1 ≤ t.slots + t.summed Phase.due) := by
  have hlate := h.summed Phase.late
  have hdue := h.summed Phase.due
  rcases h.late with ⟨hsame, hkept⟩ | ⟨ns, hcounting, hcounted⟩ | ⟨hfreeing, hfreed⟩ | ⟨hfreed, hlowered⟩
  · rw [hsame] at hlate
    rcases hs.late with hzero | ⟨hone, hspare⟩
    · left
      omega
    · right
      omega
  · left
    have hzero := hs.late_zero h.get (by rw [hcounting]; rfl) (by rw [hcounting]; nofun)
    rw [hcounting, hcounted, hzero] at hlate
    exact hlate
  · -- The slot that went back makes up for the one still counted.
    right
    have hzero := hs.late_zero h.get (by rw [hfreeing]; rfl) (by rw [hfreeing]; nofun)
    have hslots := h.slots
    rw [hfreeing, hfreed] at hlate hslots
    simp only [Phase.late, Phase.slot] at hlate hslots
    omega
  · left
    have hmem := le_weigh (f := fun call => call.phase.late) (List.mem_of_getElem? h.get)
    rw [hfreed] at hmem hlate
    rw [hlowered] at hlate
    have hmost : s.summed Phase.late ≤ 1 := by
      rcases hs.late with hzero | ⟨hone, -⟩ <;> omega
    simp only [Phase.late, ConcurrencyRateLimiter.summed] at hmem hlate hmost ⊢
    omega

/-- The call that releases still has its slot, so the semaphore is not full. -/
theorem Goes.not_raised (h : Goes s t i call phase) (hs : s.Sound) : phase ≠ .raised := by
  intro hraised
  obtain ⟨hfreeing, hfull⟩ := h.raised hraised
  have hmem := le_weigh (f := fun call => call.phase.slot) (List.mem_of_getElem? h.get)
  rw [hfreeing] at hmem
  have hslots := hs.slots
  simp only [Phase.slot, ConcurrencyRateLimiter.summed] at hmem hslots
  omega

theorem Goes.sound (h : Goes s t i call phase) (hs : s.Sound) : t.Sound := by
  have hslot := h.summed Phase.slot
  have hcounts := h.summed Phase.counts
  have hslots := h.slots
  have hheld := h.held
  have hsound := hs.slots
  refine ⟨h.lock_sound hs, ?_, ?_, h.late_sound hs, ?_, ?_⟩
  · rw [h.limit]
    omega
  · rw [hs.held] at hheld
    omega
  · rw [h.limit]
    rcases h.peak with hpeak | ⟨-, -, hpeak⟩
    · rw [hpeak]
      exact hs.peak
    · have hbound := hs.held_le
      have hbefore := hs.peak
      rw [hpeak]
      omega
  · intro other hother
    obtain ⟨j, hj⟩ := List.mem_iff_getElem?.mp hother
    by_cases hji : j = i
    · subst hji
      rw [h.get_self] at hj
      obtain rfl := Option.some.inj hj
      exact h.not_raised hs
    · rw [h.get_ne hji] at hj
      exact hs.intact other (List.mem_of_getElem? hj)

theorem sound_acquire (hs : s.Sound) (timed : Bool) : ({ s with calls := s.calls ++ [{ timed }] } : ConcurrencyRateLimiter).Sound := by
  have hover : ∀ f : Phase → Nat, f .trying = 0 →
      ({ s with calls := s.calls ++ [{ timed }] } : ConcurrencyRateLimiter).summed f = s.summed f := by
    intro f hf
    simp [summed, hf]
  refine ⟨?_, ?_, ?_, ?_, hs.peak, ?_⟩
  · intro i
    rw [hs.lock i]
    rcases lt_trichotomy i s.calls.length with hlt | heq | hgt
    · rw [List.getElem?_append_left hlt]
    · rw [heq, List.getElem?_concat_length, List.getElem?_eq_none (Nat.le_refl _)]
      simp [Phase.locks]
    · rw [List.getElem?_eq_none hgt.le, List.getElem?_eq_none (by simp; omega)]
  · rw [hover _ rfl]
    exact hs.slots
  · rw [hover _ rfl]
    exact hs.held
  · rw [hover _ rfl, hover _ rfl]
    exact hs.late
  · intro call hmem
    rcases List.mem_append.mp hmem with hmem | hmem
    · exact hs.intact call hmem
    · rw [List.mem_singleton.mp hmem]
      simp

variable {n : Int}

theorem sound (h : (limiter n).Reachable s) : s.Sound := by
  refine h.invariant (fun s hs => ?_) fun s e t hs hstep => ?_
  · simp only [limiter, make] at hs
    split at hs
    · cases hs
    split at hs
    · cases hs
    cases hs
    exact ⟨by simp, rfl, rfl, .inl rfl, ⟨Int.le_refl 0, Int.natCast_nonneg _⟩, by simp⟩
  · rcases step_cases hstep with ⟨timed, -, rfl⟩ | ⟨call, phase, hgoes⟩
    · exact sound_acquire hs timed
    · exact hgoes.sound hs

theorem limit_eq (h : (limiter n).Reachable s) : (s.limit : Int) = n := by
  refine h.invariant (I := fun s => (s.limit : Int) = n) (fun s hs => ?_) fun s e t hs hstep => ?_
  · simp only [limiter, make] at hs
    split at hs
    · cases hs
    split at hs
    · cases hs
    cases hs
    exact Int.toNat_of_nonneg (by omega)
  · rcases step_cases hstep with ⟨timed, -, rfl⟩ | ⟨call, phase, hgoes⟩
    · exact hs
    · rw [hgoes.limit]
      exact hs

/-! ## At rest -/

theorem over_grants (hs : s.Sound) (hquiet : s.Quiet) {f : Phase → Nat} (hgranted : f .granted = 1) (hreleased : f .released = 0)
    (htimedOut : f .timedOut = 0) : s.summed f = s.grants := by
  have hcount : s.grants = weigh (fun call => if call.phase = .granted then 1 else 0) s.calls := by
    rw [grants]
    induction s.calls with
    | nil => rfl
    | cons call calls ih =>
      rw [List.countP_cons, weigh_cons, ih, Nat.add_comm]
      simp only [decide_eq_true_eq]
  rw [hcount]
  apply weigh_congr
  intro call hcall
  have hrests := hquiet call hcall
  have hintact := hs.intact call hcall
  cases hphase : call.phase with
  | granted => simpa using hgranted
  | released => simpa using hreleased
  | timedOut => simpa using htimedOut
  | raised => exact absurd hphase hintact
  | _ =>
    rw [hphase] at hrests
    cases hrests

/-! ## A call that times out -/

/-- A call that has got a slot does not time out. -/
theorem got_run {u : ConcurrencyRateLimiter} {es : List Event} (hrun : (limiter n).Run t es u) {j : Nat}
    (h : (t.calls[j]?.any fun call => call.phase.got) = true) : (u.calls[j]?.any fun call => call.phase.got) = true := by
  refine hrun.invariant (I := fun s => (s.calls[j]?.any fun call => call.phase.got) = true) (fun s e t hs hstep => ?_) h
  rcases step_cases hstep with ⟨timed, -, rfl⟩ | ⟨call, phase, hgoes⟩
  · cases hget : s.calls[j]? with
    | none =>
      rw [hget] at hs
      cases hs
    | some call =>
      have hlt := (List.getElem?_eq_some_iff.mp hget).1
      rw [List.getElem?_append_left hlt]
      exact hs
  · by_cases hj : j = s.callOf e
    · rw [hj, hgoes.get] at hs
      rw [hj, hgoes.get_self]
      exact hgoes.got hs
    · rw [hgoes.get_ne hj]
      exact hs

/-- A step that leaves its call without a slot changes nothing that is counted. -/
theorem unchanged_of_not_got {e : Event} (hstep : s.step e = some t)
    (h : (t.calls[s.callOf e]?.any fun call => call.phase.got) = false) :
    t.slots = s.slots ∧ t.held = s.held ∧ t.peakInFlight = s.peakInFlight := by
  rcases step_cases hstep with ⟨timed, -, rfl⟩ | ⟨call, phase, hgoes⟩
  · exact ⟨rfl, rfl, rfl⟩
  · rw [hgoes.get_self, Option.any_some] at h
    have hbefore : call.phase.got = false := by
      cases hgot : call.phase.got with
      | false => rfl
      | true =>
        rw [hgoes.got hgot] at h
        cases h
    obtain ⟨hslot, hcounts⟩ := Phase.not_got (p := phase) h
    obtain ⟨hslot', hcounts'⟩ := Phase.not_got hbefore
    have hslots := hgoes.slots
    have hheld := hgoes.held
    refine ⟨by omega, by omega, ?_⟩
    rcases hgoes.peak with hpeak | ⟨hgot, -⟩
    · exact hpeak
    · rw [hgot] at h
      cases h

/-- What a limiter of `n` keeps to. -/
structure Keeps (n : Int) (s : ConcurrencyRateLimiter) : Prop where
  inFlight : 0 ≤ s.inFlight ∧ s.inFlight ≤ n
  peak : 0 ≤ s.peakInFlight ∧ s.peakInFlight ≤ n
  /-- When no call is under way. -/
  quiet : s.Quiet → s.inFlight = s.grants ∧ s.slots + s.inFlight = n
  /-- A step of a call that is going to time out, or that has. -/
  timedOut : ∀ {e : Event} {t u : ConcurrencyRateLimiter} {es : List Event}, (limiter n).step s e t → (limiter n).Run t es u →
    u.calls[s.callOf e]?.map Call.phase = some .timedOut → t.slots = s.slots ∧ t.inFlight = s.inFlight

/-- **The counter and the semaphore keep to the bound in every interleaving.** -/
theorem keeps (h : (limiter n).Reachable s) : s.Keeps n where
  inFlight := by
    have hbound := (sound h).held_le
    rw [limit_eq h] at hbound
    exact hbound
  peak := by
    have hpeak := (sound h).peak
    rw [limit_eq h] at hpeak
    exact hpeak
  quiet hquiet := by
    have hslots := (sound h).slots
    have hheld := (sound h).held
    rw [over_grants (sound h) hquiet rfl rfl rfl] at hslots hheld
    refine ⟨hheld, ?_⟩
    rw [inFlight, hheld, ← limit_eq h]
    exact_mod_cast hslots
  timedOut {e t u es} hstep hrun hphase := by
    have hlast : (u.calls[s.callOf e]?.any fun call => call.phase.got) = false := by
      obtain ⟨call, hget, hcall⟩ := Option.map_eq_some_iff.mp hphase
      rw [hget, Option.any_some, hcall]
      rfl
    have hthen := Bool.eq_false_iff.mpr fun hgot => Bool.eq_false_iff.mp hlast (got_run hrun hgot)
    obtain ⟨hslots, hheld, -⟩ := unchanged_of_not_got hstep hthen
    exact ⟨hslots, hheld⟩

/-- With one slot: the second call times out, the third has the slot that the first is giving back. -/
def race : List Event :=
  [.acquire false, .go 0 0, .go 0 0, .go 0 0, .go 0 0, .go 0 0, .acquire true, .go 1 0, .expire 1 9, .go 1 0, .go 1 0,
    .acquire false, .go 2 0, .release 0, .go 0 0, .go 0 0, .go 2 5]

def raced : ConcurrencyRateLimiter where
  limit := 1
  slots := 0
  held := 1
  counterLock := some 0
  granted := 1
  waited := 1
  timedOut := 1
  waitNs := 9
  peakInFlight := 1
  calls := [⟨false, .freed⟩, ⟨true, .timedOut⟩, ⟨false, .took 5⟩]

theorem raced_keeps : raced.Keeps 1 := by
  have hmade : (limiter 1).init { limit := 1, slots := 1 } := rfl
  exact keeps (Machine.reachable_foldlM (M := limiter 1) (fun _ _ _ h => h) race (.init hmade) rfl)

end ConcurrencyRateLimiter

end ShipInfer.Scheduling.Limits
