import Mathlib.Tactic.Common

/-!
# The waiter budget

How many pipeline workers may be parked inside a barrier at once, per process:
`WaiterBudget` of `topology/barrier.py`. The counting is a bounded semaphore;
a counter beside it says how many permits are out.
-/

namespace ShipInfer.Barrier

/-- What the constructors refuse. -/
inductive ConfigurationError
  | permits (given : Int)
  | syncWindow
  | maxInstants (given : Int)
  | workers (given : Int)
  deriving DecidableEq

/-- `_permits`, the value of the `BoundedSemaphore`, and `_held`. -/
structure WaiterBudget where
  permits : Nat
  semaphore : Nat
  held : Nat
  deriving DecidableEq

namespace WaiterBudget

/-- `WaiterBudget(permits)` -/
def new (permits : Int) : Except ConfigurationError WaiterBudget :=
  if permits < 0 then .error (.permits permits) else .ok ⟨permits.toNat, permits.toNat, 0⟩

/-- Take a permit if there is one. Never blocks. -/
def acquire (b : WaiterBudget) : Bool × WaiterBudget :=
  if b.semaphore = 0 then (false, b) else (true, { b with semaphore := b.semaphore - 1, held := b.held + 1 })

/-- Give a permit back; `none` is the `ServerStateError` of an over-release,
which is the bounded semaphore's refusal to go above its initial value. -/
def release (b : WaiterBudget) : Option WaiterBudget :=
  if b.permits ≤ b.semaphore then none
  else some { b with semaphore := b.semaphore + 1, held := b.held - 1 }

/-- The counter and the semaphore agree. -/
def Balanced (b : WaiterBudget) : Prop := b.semaphore + b.held = b.permits

theorem new_balanced {permits : Int} {b : WaiterBudget} (h : new permits = .ok b) : b.Balanced ∧ b.held = 0 := by
  unfold new at h
  split at h
  · cases h
  · cases h; exact ⟨Nat.add_zero _, rfl⟩

theorem new_permits {permits : Int} {b : WaiterBudget} (h : new permits = .ok b) : (b.permits : Int) = permits := by
  unfold new at h
  split at h
  · cases h
  · cases h; exact Int.toNat_of_nonneg (by omega)

theorem acquire_true {b b' : WaiterBudget} (h : b.acquire = (true, b')) (hb : b.Balanced) :
    b'.Balanced ∧ b'.held = b.held + 1 ∧ b'.permits = b.permits := by
  unfold acquire at h
  split at h
  · cases h
  · simp only [Prod.mk.injEq, true_and] at h
    subst h
    refine ⟨?_, rfl, rfl⟩
    unfold Balanced at *; simp only; omega

theorem acquire_false {b b' : WaiterBudget} (h : b.acquire = (false, b')) : b' = b := by
  unfold acquire at h
  split at h
  · cases h; rfl
  · cases h

/-- A permit that is out can be given back. -/
theorem release_of_held {b : WaiterBudget} (hb : b.Balanced) (hh : 0 < b.held) :
    ∃ b', b.release = some b' ∧ b'.Balanced ∧ b'.held + 1 = b.held ∧ b'.permits = b.permits := by
  unfold Balanced at hb
  refine ⟨{ b with semaphore := b.semaphore + 1, held := b.held - 1 }, ?_, ?_, ?_, rfl⟩
  · unfold release; rw [if_neg (by omega)]
  · unfold Balanced; simp only; omega
  · simp only; omega

theorem Balanced.held_le {b : WaiterBudget} (h : b.Balanced) : b.held ≤ b.permits := by
  unfold Balanced at h; omega

end WaiterBudget

end ShipInfer.Barrier
